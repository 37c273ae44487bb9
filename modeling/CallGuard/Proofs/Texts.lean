import CallGuard.Proofs.Documents
import CallGuard.Proofs.Numerals
import CallGuard.Proofs.Quotations

/-!
# JSON text is read as it was written

The compact text of a document is JSON text, and reads back as that document with its members in
the same order, if the document is nested no deeper than a reader goes, and only then
(`Json.ofText?_text_iff`).

Tokens are written without gaps, and each is read as it was written (`Token.read_chars`). Only a
number could take in what stands behind it, if that were a number too; but no document has two
numbers in a row (`Reading.isNumber_eq_false`), so the tokens that make up a document are told apart
in its text (`Reading.readAll_of_run`).
-/

namespace CallGuard

variable {rest : List Char}

/-! ## One token -/

namespace Token

/-- Whether a token is a number. -/
def isNumber : Token → Bool
  | number _ => true
  | _ => false

/-- What begins with a minus or a digit is a number. -/
theorem read_of_digit {c : Char} (h : c = '-' ∨ c.isDigit) (s : List Char) :
    read (c :: s) = (readNumber (c :: s)).map fun r => (number r.1, r.2) := by
  unfold read
  split
  case h_11 => rfl
  all_goals simp_all

/-- A token is read as it was written, where nothing goes on with a number. -/
theorem read_chars (t : Token) (h : t.isNumber → Stops isNumberChar rest) :
    read (t.chars ++ rest) = some (t, rest) := by
  cases t with
  | number n =>
    obtain ⟨c, s, hs, hc⟩ := exists_text_eq_cons n
    have hread := readNumber_text n (h rfl)
    rw [chars, hs, List.cons_append, read_of_digit hc, ← List.cons_append, ← hs, hread,
      Option.map_some]
  | string s =>
    show (readQuoted (s.toList.flatMap quotedChar ++ ['"'] ++ rest)).map _ = _
    rw [List.append_assoc, List.singleton_append, readQuoted_quoted, Option.map_some,
      String.ofList_toList]
  | bool b => cases b <;> rfl
  | _ => rfl

/-- A token begins with a character that is not a gap, and with which no number goes on unless
it is a number itself. -/
theorem exists_chars_eq_cons (t : Token) : ∃ c s, t.chars = c :: s ∧ isGap c = false ∧
    (t.isNumber = false → isNumberChar c = false) := by
  cases t with
  | number n =>
    obtain ⟨c, s, hs, hc⟩ := exists_text_eq_cons n
    refine ⟨c, s, hs, Bool.eq_false_iff.2 fun hgap => ?_, fun h => by cases h⟩
    simp only [isGap, Bool.or_eq_true, beq_iff_eq] at hgap
    rcases hgap with ((rfl | rfl) | rfl) | rfl <;> simp at hc
  | string s => exact ⟨_, _, rfl, rfl, fun _ => rfl⟩
  | bool b => cases b <;> exact ⟨_, _, rfl, rfl, fun _ => rfl⟩
  | _ => exact ⟨_, _, rfl, rfl, fun _ => rfl⟩

theorem stops_chars {t : Token} (h : t.isNumber = false) (s : List Char) :
    Stops isNumberChar (t.chars ++ s) := by
  obtain ⟨c, r, hr, -, hc⟩ := t.exists_chars_eq_cons
  rw [hr]
  exact (stops_cons _ _ _).2 (hc h)

/-- The first token of a text is read off the front. -/
theorem readAll_chars (t : Token) (h : t.isNumber → Stops isNumberChar rest) :
    readAll (t.chars ++ rest) = (readAll rest).map (t :: ·) := by
  have hread := read_chars t h
  obtain ⟨c, s, hs, hgap, -⟩ := t.exists_chars_eq_cons
  rw [hs, List.cons_append] at hread ⊢
  rw [readAll, if_neg (by simp [hgap])]
  split
  · simp_all
  · simp_all

end Token

/-! ## The tokens of a document -/

namespace Reading

variable {r next : Reading}

theorem step_complete_number (j : Json) (n : JsonNumber) (stack : List Frame) :
    (complete j stack).step (.number n) = none := by
  rcases stack with _ | ⟨_ | _, _⟩ <;> rfl

theorem exists_eq_complete_of_number {n : JsonNumber} (h : r.step (.number n) = some next) :
    ∃ stack, next = complete (.number n) stack := by
  cases r with
  | due opened stack =>
    rw [Json.step_due (by simp)] at h
    cases h
    exact ⟨stack, rfl⟩
  | name opened => cases opened <;> cases h
  | colon => cases h
  | complete j stack =>
    rw [step_complete_number] at h
    cases h

/-- No document has two numbers in a row. -/
theorem isNumber_eq_false {t u : Token} (ht : t.isNumber) (h : r.step t = some next)
    (hu : (next.step u).isSome) : u.isNumber = false := by
  cases t with
  | number n =>
    obtain ⟨stack, rfl⟩ := exists_eq_complete_of_number h
    cases u with
    | number m =>
      rw [step_complete_number] at hu
      cases hu
    | _ => rfl
  | _ => cases ht

/-- Tokens that a reading takes are told apart in their text. -/
theorem readAll_of_run {tokens : List Token} (h : r.run tokens = some next) :
    Token.readAll (tokens.flatMap Token.chars) = some tokens := by
  induction tokens generalizing r with
  | nil => rw [List.flatMap_nil, Token.readAll]
  | cons t tokens ih =>
    obtain ⟨s, hs, h⟩ := Option.bind_eq_some_iff.1 h
    have hstops : t.isNumber → Stops isNumberChar (tokens.flatMap Token.chars) := by
      intro ht
      cases tokens with
      | nil => exact stops_nil _
      | cons u tokens =>
        obtain ⟨s', hs', -⟩ := Option.bind_eq_some_iff.1 h
        exact Token.stops_chars (isNumber_eq_false ht hs (by rw [hs']; rfl)) _
    rw [List.flatMap_cons, Token.readAll_chars t hstops, ih h, Option.map_some]

end Reading

namespace Json

theorem depth_le_of_ofText?_eq_some {text : String} {j : Json} (h : ofText? text = some j) :
    j.depth ≤ maxDepth := by
  obtain ⟨tokens, -, h⟩ := Option.bind_eq_some_iff.1 h
  exact depth_le_of_ofTokens?_eq_some h

/-- The text of a document reads back as that document, members in the same order, if it is nested
no deeper than a reader goes, and only then. -/
theorem ofText?_text_iff (j : Json) : ofText? j.text = some j ↔ j.depth ≤ maxDepth := by
  refine ⟨depth_le_of_ofText?_eq_some, fun h => ?_⟩
  have htokens := ofTokens?_tokens h
  obtain ⟨r, hr, -⟩ := Option.bind_eq_some_iff.1 htokens
  rw [ofText?, text, String.toList_ofList, Reading.readAll_of_run hr, Option.bind_some, htokens]

end Json

end CallGuard
