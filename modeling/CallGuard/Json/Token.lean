import CallGuard.Json.Numeral
import CallGuard.Json.Quoted

/-!
# Tokens of JSON text

The smallest parts of JSON text that mean something : brackets, commas, colons,
the three words, numbers and quoted texts. Blanks may stand between tokens and
mean nothing.

`Token.chars` writes a token, `Token.read` takes one off the front of a text, and
`Token.readAll` reads a text to its end. Every token takes at least one character,
so the reading ends.
-/

namespace CallGuard

/-- A part of JSON text. -/
inductive Token
  /-- The start of an array. -/
  | openArray
  /-- The end of an array. -/
  | closeArray
  /-- The start of an object. -/
  | openObject
  /-- The end of an object. -/
  | closeObject
  /-- What stands between elements or members. -/
  | comma
  /-- What stands between the name of a member and its value. -/
  | colon
  /-- The word for nothing. -/
  | null
  /-- The word for a truth value. -/
  | bool (b : Bool)
  /-- A number. -/
  | number (n : JsonNumber)
  /-- A quoted text. -/
  | string (s : String)
  deriving DecidableEq

namespace Token

/-- A token as it is written. -/
def chars : Token → List Char
  | openArray => ['[']
  | closeArray => [']']
  | openObject => ['{']
  | closeObject => ['}']
  | comma => [',']
  | colon => [':']
  | null => ['n', 'u', 'l', 'l']
  | bool true => ['t', 'r', 'u', 'e']
  | bool false => ['f', 'a', 'l', 's', 'e']
  | number n => n.text.toList
  | string s => quoted s.toList

/-- Whether a character may stand between tokens. -/
def isGap (c : Char) : Bool := c == ' ' || c == '\n' || c == '\t' || c == '\r'

/-- A token at the front of a text, and what follows it. -/
def read : List Char → Option (Token × List Char)
  | '[' :: rest => some (openArray, rest)
  | ']' :: rest => some (closeArray, rest)
  | '{' :: rest => some (openObject, rest)
  | '}' :: rest => some (closeObject, rest)
  | ',' :: rest => some (comma, rest)
  | ':' :: rest => some (colon, rest)
  | 'n' :: 'u' :: 'l' :: 'l' :: rest => some (null, rest)
  | 't' :: 'r' :: 'u' :: 'e' :: rest => some (bool true, rest)
  | 'f' :: 'a' :: 'l' :: 's' :: 'e' :: rest => some (bool false, rest)
  | '"' :: rest => (readQuoted rest).map fun r => (string (.ofList r.1), r.2)
  | s => (readNumber s).map fun r => (number r.1, r.2)

/-- A token takes something. -/
theorem length_lt_of_read {s rest : List Char} {t : Token} (h : read s = some (t, rest)) :
    rest.length < s.length := by
  unfold read at h
  split at h
  case h_10 =>
    obtain ⟨⟨text, r⟩, hr, he⟩ := Option.map_eq_some_iff.1 h
    cases he
    have := length_lt_of_readQuoted hr
    simp only [List.length_cons]
    omega
  case h_11 =>
    obtain ⟨⟨n, r⟩, hr, he⟩ := Option.map_eq_some_iff.1 h
    cases he
    exact length_lt_of_readNumber hr
  all_goals
    cases h
    simp only [List.length_cons]
    omega

/-- The tokens of a text. -/
def readAll (s : List Char) : Option (List Token) :=
  match s with
  | [] => some []
  | c :: rest =>
    if isGap c then readAll rest
    else
      match _h : read (c :: rest) with
      | none => none
      | some (t, after) => (readAll after).map (t :: ·)
termination_by s.length
decreasing_by
  · simp
  · exact length_lt_of_read (by assumption)

end Token

end CallGuard
