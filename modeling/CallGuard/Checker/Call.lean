import CallGuard.Checker.Basic

/-!
# Calls

A `Call` records what happens when a checker is entered : which checker, how, with
which value and where, the calls that it makes in turn, and how it ends. Nothing
else happens in a check, so all that can be said about the course of checking is
said about these trees. `Call.visits` lists every checker that is entered, in order.

Two ways to run through a list are used. `untilFailure` makes calls up to and
including the first that fails; `untilPass` up to and including the first that
passes.
-/

namespace CallGuard

/-- A checker entered with a value at a site. -/
structure Visit where
  /-- The checker. -/
  checker : Checker
  /-- How it is entered. -/
  entry : Entry
  /-- The value. -/
  value : Value
  /-- Where the value stands. -/
  site : Site

/-- Which part of a checker is called from it. -/
inductive Slot
  /-- The checker itself, by its other entry. -/
  | own
  /-- The checker that a modifier stands around. -/
  | inner
  /-- The checker of the elements. -/
  | element
  /-- The checker of the properties. -/
  | property
  /-- The checker under a key of a shape. -/
  | field (key : String)
  /-- An alternative of a union. -/
  | alternative (index : Nat)
  deriving DecidableEq

/-- What happens when a checker is entered. -/
inductive Call : Type
  /-- A visit, the calls that it makes with the parts that they go to, and its end. -/
  | mk (visit : Visit) (parts : List (Slot × Call)) (outcome : Outcome)

namespace Call

/-- The checker that is entered, and with what. -/
def visit : Call → Visit
  | mk visit _ _ => visit

/-- The calls that are made in turn. -/
def parts : Call → List (Slot × Call)
  | mk _ parts _ => parts

/-- How it ends. -/
def outcome : Call → Outcome
  | mk _ _ outcome => outcome

/-- Whether it ends well. -/
def passes (c : Call) : Bool := c.outcome.passes

/-- A call that makes no others. -/
def leaf (visit : Visit) (outcome : Outcome) : Call := mk visit [] outcome

/-- A call that ends as the one call that it makes. -/
def through (visit : Visit) (slot : Slot) (c : Call) : Call := mk visit [(slot, c)] c.outcome

mutual

/-- Every visit of a call with the parts that lead to it, in order. -/
def walk (above : List Slot) : Call → List (List Slot × Visit)
  | mk visit parts _ => (above, visit) :: walkParts above parts

/-- Every visit of the calls that a call makes. -/
def walkParts (above : List Slot) : List (Slot × Call) → List (List Slot × Visit)
  | [] => []
  | (slot, c) :: rest => c.walk (above ++ [slot]) ++ walkParts above rest

end

/-- Every visit of a call, in order. -/
def visits (c : Call) : List Visit := (c.walk []).map Prod.snd

end Call

/-! ## Calls one after another -/

/-- The end of a list of calls that all have to pass : the first failure, if there is one. -/
def firstFailure : List Outcome → Outcome
  | [] => .pass
  | .pass :: rest => firstFailure rest
  | .fail f :: _ => .fail f

/-- Makes calls up to and including the first that fails. -/
def untilFailure {α : Type} (call : α → Call) : List α → List Call
  | [] => []
  | a :: rest =>
    let c := call a
    if c.passes then c :: untilFailure call rest else [c]

/-- Makes calls up to and including the first that passes. -/
def untilPass {α : Type} (call : α → Call) : List α → List Call
  | [] => []
  | a :: rest =>
    let c := call a
    if c.passes then [c] else c :: untilPass call rest

section Laws

variable {α : Type}

theorem firstFailure_passes (outcomes : List Outcome) :
    (firstFailure outcomes).passes = outcomes.all Outcome.passes := by
  induction outcomes with
  | nil => rfl
  | cons o rest ih =>
    cases o with
    | pass => simpa [firstFailure, Outcome.passes] using ih
    | fail f => simp [firstFailure, Outcome.passes]

/-- Stopping at the first failure does not change which one is the first. -/
theorem firstFailure_untilFailure (call : α → Call) (as : List α) :
    firstFailure ((untilFailure call as).map Call.outcome) =
      firstFailure (as.map fun a => (call a).outcome) := by
  induction as with
  | nil => rfl
  | cons a rest ih =>
    rw [untilFailure]
    cases h : (call a).outcome with
    | pass => simp [Call.passes, h, Outcome.passes, firstFailure, ih]
    | fail f => simp [Call.passes, h, Outcome.passes, firstFailure]

/-- Stopping at the first pass does not change whether there is one. -/
theorem any_passes_untilPass (call : α → Call) (as : List α) :
    (untilPass call as).any Call.passes = as.any fun a => (call a).passes := by
  induction as with
  | nil => rfl
  | cons a rest ih =>
    rw [untilPass]
    split <;> simp_all

/-- Stopping at the first failure makes the first calls of those without stopping. -/
theorem untilFailure_isPrefix_map (call : α → Call) (as : List α) :
    untilFailure call as <+: as.map call := by
  induction as with
  | nil => exact List.prefix_refl _
  | cons a rest ih =>
    rw [untilFailure, List.map_cons]
    split
    · exact List.cons_prefix_cons.2 ⟨rfl, ih⟩
    · exact List.cons_prefix_cons.2 ⟨rfl, List.nil_prefix⟩

end Laws

end CallGuard
