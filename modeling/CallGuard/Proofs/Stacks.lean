import CallGuard.Proofs.Visits

/-!
# Stacks of modifiers

Modifiers may stand around a checker in any number and order (`Checker.stack`). However many
there are, two things about them can be noticed : whether the marker `rest` is among them, and
which is the outermost that says what becomes of a missing value (`Modifier.decider?`). So a
stack does what one of at most two modifiers does (`Modifier.normalize`), and
`Checker.check_stack` says in these terms what it does with any value, around any checker.

The modifiers leave a value that is there to the checker within, by the entry that they are
entered by. A missing value goes down to the decider and no further : the visits of its check
are those of the modifiers up to there (`Checker.visits_checkCall_stack_of_missing`). Nothing
is asked of the checker within, which may answer to missing values in its own way.
-/

namespace CallGuard

/-! ## Modifiers -/

/-- What can stand around a checker. -/
inductive Modifier
  /-- A value has to be there. -/
  | required
  /-- A value may be missing. -/
  | nullable
  /-- All arguments that remain are taken. -/
  | rest
  deriving DecidableEq

namespace Modifier

/-- A checker with a modifier around it. -/
def around : Modifier → Checker → Checker
  | required, c => .required c
  | nullable, c => .nullable c
  | rest, c => .rest c

/-- The outermost modifier that says what becomes of a missing value. -/
def decider? (w : List Modifier) : Option Modifier := w.find? (· ≠ rest)

/-- The stack of at most two modifiers that does the same. -/
def normalize (w : List Modifier) : List Modifier :=
  (if rest ∈ w then [rest] else []) ++ (decider? w).toList

example : normalize [rest, nullable, rest, required] = [rest, nullable] := rfl

theorem ne_rest_of_decider? {w : List Modifier} {m : Modifier} (h : decider? w = some m) :
    m ≠ rest := by
  rw [decider?] at h
  simpa using List.find?_some h

theorem rest_mem_normalize_iff (w : List Modifier) : rest ∈ normalize w ↔ rest ∈ w := by
  have hdecider : rest ∉ (decider? w).toList :=
    fun h => absurd rfl (ne_rest_of_decider? (Option.mem_toList.1 h))
  rw [normalize, List.mem_append, or_iff_left hdecider]
  split <;> simp [*]

theorem decider?_append_of_rest {w w' : List Modifier} (h : ∀ m ∈ w, m = rest) :
    decider? (w ++ w') = decider? w' := by
  have hw : decider? w = none := List.find?_eq_none.2 fun m hm => by simp [h m hm]
  rw [decider?, List.find?_append, ← decider?, hw, Option.none_or, decider?]

theorem decider?_toList_decider? (w : List Modifier) :
    decider? (decider? w).toList = decider? w := by
  cases h : decider? w with
  | none => rfl
  | some m => exact List.find?_cons_of_pos (by simpa using ne_rest_of_decider? h)

theorem decider?_normalize (w : List Modifier) : decider? (normalize w) = decider? w := by
  rw [normalize, decider?_append_of_rest, decider?_toList_decider?]
  intro m hm
  split at hm
  · exact List.mem_singleton.1 hm
  · cases hm

theorem length_normalize_le (w : List Modifier) : (normalize w).length ≤ 2 := by
  rw [normalize, List.length_append]
  cases decider? w <;> split <;> simp

end Modifier

open Modifier (decider? normalize)

namespace Checker

/-- A checker in a stack of modifiers, the outermost first. -/
def stack (w : List Modifier) (c : Checker) : Checker := w.foldr Modifier.around c

section

variable (w : List Modifier) (c : Checker) (v : Value) (s : Site)

theorem stack_append (w' : List Modifier) : stack (w ++ w') c = stack w (stack w' c) :=
  List.foldr_append

theorem sizeOf_lt_sizeOf_around (m : Modifier) : sizeOf c < sizeOf (m.around c) := by
  cases m <;> simp [Modifier.around]

theorem sizeOf_add_length_le_sizeOf_stack : sizeOf c + w.length ≤ sizeOf (stack w c) := by
  induction w with
  | nil => exact Nat.le_refl _
  | cons m w ih =>
    have := sizeOf_lt_sizeOf_around (stack w c) m
    rw [List.length_cons]
    exact Nat.le_trans (by omega) this

/-! ## Values that are there -/

theorem check_around_of_there {v : Value} (hv : v.isNullish = false) (m : Modifier) :
    (m.around c).check v s = c.check v s := by
  cases m with
  | required => exact (check_required c v s).trans (by simp [hv])
  | nullable => exact (check_nullable c v s).trans (by simp [hv])
  | rest => exact check_rest c v s

theorem check_stack_of_there {v : Value} (hv : v.isNullish = false) :
    (stack w c).check v s = c.check v s := by
  induction w with
  | nil => rfl
  | cons m w ih => exact (check_around_of_there (stack w c) s hv m).trans ih

theorem checkPresent_stack : (stack w c).checkPresent v s = c.checkPresent v s := by
  induction w with
  | nil => rfl
  | cons m w ih =>
    cases m <;> exact ih

theorem isRest_stack : (stack w c).isRest ↔ .rest ∈ w ∨ c.isRest := by
  induction w with
  | nil => simp [stack]
  | cons m w ih =>
    cases m with
    | required | nullable => exact ih.trans (by simp)
    | rest => simp [stack, Modifier.around, isRest]

/-! ## Missing values -/

theorem check_stack_of_missing {v : Value} (hv : v.isNullish) :
    (stack w c).check v s =
      match decider? w with
      | some .required => .fail (Cause.failure s .required)
      | some .nullable => .pass
      | _ => c.check v s := by
  induction w with
  | nil => rfl
  | cons m w ih =>
    cases m with
    | required => exact (check_required _ v s).trans (if_pos hv)
    | nullable => exact (check_nullable _ v s).trans (if_pos hv)
    | rest => exact (check_rest _ v s).trans ih

/-- The visits of the modifiers of a stack, from outside. -/
def layers (entry : Entry) (c : Checker) (v : Value) (s : Site) : List Modifier → List Visit
  | [] => []
  | m :: w => ⟨stack (m :: w) c, entry, v, s⟩ :: layers entry c v s w

theorem checkCall_rest : (rest c).checkCall v s =
    .through ⟨rest c, .check, v, s⟩ .inner (c.checkCall v s) := by
  simp only [checkCall, behaviour, Behaviour.modifier]
  cases v.isNullish <;> rfl

theorem visits_checkCall_around_of_missing {v : Value} (hv : v.isNullish) {m : Modifier}
    (hm : m ≠ .rest) :
    ((m.around c).checkCall v s).visits = [⟨m.around c, .check, v, s⟩] := by
  cases m with
  | required | nullable =>
    simp only [Modifier.around, checkCall, behaviour, Behaviour.modifier, hv, Call.leaf,
      Call.visits_mk, List.flatMap_nil]
  | rest => exact absurd rfl hm

/-- Markers and a decider within let a missing value through to nothing else. -/
theorem visits_checkCall_stack_of_missing {v : Value} (hv : v.isNullish) {w : List Modifier}
    (hw : ∀ m ∈ w, m = .rest) {m : Modifier} (hm : m ≠ .rest) :
    ((stack (w ++ [m]) c).checkCall v s).visits = layers .check c v s (w ++ [m]) := by
  induction w with
  | nil => exact visits_checkCall_around_of_missing c s hv hm
  | cons o w ih =>
    obtain ⟨rfl, hlater⟩ := List.forall_mem_cons.1 hw
    have hcall : (stack (.rest :: (w ++ [m])) c).checkCall v s =
        .through ⟨stack (.rest :: (w ++ [m])) c, .check, v, s⟩ .inner
          ((stack (w ++ [m]) c).checkCall v s) :=
      checkCall_rest _ v s
    rw [List.cons_append, hcall, Call.through, Call.visits_mk, layers, List.flatMap_singleton,
      ih hlater]

theorem sizeOf_lt_of_mem_layers {entry : Entry} {visit : Visit} {w : List Modifier}
    (h : visit ∈ layers entry c v s w) : sizeOf c < sizeOf visit.checker := by
  induction w with
  | nil => cases h
  | cons m w ih =>
    rcases List.mem_cons.1 h with rfl | h
    · have := sizeOf_add_length_le_sizeOf_stack (m :: w) c
      rw [List.length_cons] at this
      exact Nat.lt_of_lt_of_le (by omega) this
    · exact ih h

/-- A decider does not let a missing value through to the checker within. -/
theorem checker_ne_of_mem_visits_of_missing {v : Value} (hv : v.isNullish) {w : List Modifier}
    {m : Modifier} (hm : decider? w = some m) {visit : Visit}
    (h : visit ∈ ((stack w c).checkCall v s).visits) : visit.checker ≠ c := by
  have hrest := Modifier.ne_rest_of_decider? hm
  obtain ⟨-, outer, inner, rfl, houter⟩ := List.find?_eq_some_iff_append.1 hm
  -- What stands below the decider is as good as any other checker.
  have hsplit : stack (outer ++ m :: inner) c = stack (outer ++ [m]) (stack inner c) := by
    rw [← stack_append, List.append_assoc]
    rfl
  rw [hsplit, visits_checkCall_stack_of_missing _ s hv (by simpa using houter) hrest] at h
  have hbelow := sizeOf_lt_of_mem_layers _ _ _ h
  have hinner := sizeOf_add_length_le_sizeOf_stack inner c
  rintro rfl
  omega

/-! ## Stacks -/

/-- A stack leaves a value that is there to the checker within, by either entry. A missing value
is left to the outermost modifier that is not `rest`, which refuses it or lets it pass without
the checker within, and to this checker if there is no such modifier. A stack takes the
arguments that remain if `rest` is in it or the checker within takes them. The two entries
agree on values that are there if they do so for the checker within, and two modifiers at most
do what the stack does. -/
theorem check_stack :
    (v.isNullish = false → (stack w c).check v s = c.check v s) ∧
    (stack w c).checkPresent v s = c.checkPresent v s ∧
    (v.isNullish → decider? w = some .required →
      (stack w c).check v s = .fail (Cause.failure s .required) ∧
      ∀ visit ∈ ((stack w c).checkCall v s).visits, visit.checker ≠ c) ∧
    (v.isNullish → decider? w = some .nullable →
      (stack w c).check v s = .pass ∧
      ∀ visit ∈ ((stack w c).checkCall v s).visits, visit.checker ≠ c) ∧
    (v.isNullish → decider? w = none → (stack w c).check v s = c.check v s) ∧
    ((stack w c).isRest ↔ .rest ∈ w ∨ c.isRest) ∧
    (c.isPlain → v.isNullish = false →
      (stack w c).check v s = (stack w c).checkPresent v s) ∧
    (normalize w).length ≤ 2 ∧
    (stack (normalize w) c).check v s = (stack w c).check v s ∧
    (stack (normalize w) c).checkPresent v s = (stack w c).checkPresent v s ∧
    (stack (normalize w) c).isRest = (stack w c).isRest := by
  refine ⟨check_stack_of_there w c s, checkPresent_stack w c v s, fun hv hm => ?_,
    fun hv hm => ?_, fun hv hm => ?_, isRest_stack w c, fun hc hv => ?_,
    Modifier.length_normalize_le w, ?_, ?_, ?_⟩
  · refine ⟨?_, fun visit => checker_ne_of_mem_visits_of_missing c s hv hm⟩
    rw [check_stack_of_missing w c s hv, hm]
  · refine ⟨?_, fun visit => checker_ne_of_mem_visits_of_missing c s hv hm⟩
    rw [check_stack_of_missing w c s hv, hm]
  · rw [check_stack_of_missing w c s hv, hm]
  · rw [check_stack_of_there w c s hv, checkPresent_stack, check_of_isPlain hc, hv]
    rfl
  · cases hv : v.isNullish with
    | false => rw [check_stack_of_there _ c s hv, check_stack_of_there _ c s hv]
    | true =>
      rw [check_stack_of_missing _ c s hv, check_stack_of_missing _ c s hv,
        Modifier.decider?_normalize]
  · rw [checkPresent_stack, checkPresent_stack]
  · rw [Bool.eq_iff_iff, isRest_stack, isRest_stack, Modifier.rest_mem_normalize_iff]

end

end Checker

end CallGuard
