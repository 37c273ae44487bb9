import CallGuard.Json.Token

/-!
# JSON text

A document is written as its tokens, one after the other and without gaps. It is
read by going through the tokens with a stack of the arrays and objects that are
open : `Reading` says what is due next, and `Reading.step` takes one token.

Where a name comes again in an object, the member keeps its first place and takes
the last value. Documents may be nested `maxDepth` levels deep and no deeper.
-/

namespace CallGuard

/-- How many arrays and objects may be open at one time. -/
def maxDepth : Nat := 127

mutual

/-- The tokens of a document. -/
def Json.tokens : Json → List Token
  | .null => [.null]
  | .bool b => [.bool b]
  | .number n => [.number n]
  | .string s => [.string s]
  | .array items => .openArray :: itemTokens items ++ [.closeArray]
  | .object ⟨entries, _⟩ => .openObject :: memberTokens entries ++ [.closeObject]

/-- The tokens of the elements of an array, commas between them. -/
def itemTokens : List Json → List Token
  | [] => []
  | [j] => j.tokens
  | j :: rest => j.tokens ++ .comma :: itemTokens rest

/-- The tokens of the members of an object, commas between them. -/
def memberTokens : {keys : List String} → Entries Json keys → List Token
  | _, .nil => []
  | _, .cons name j .nil => .string name :: .colon :: j.tokens
  | _, .cons name j rest => .string name :: .colon :: j.tokens ++ .comma :: memberTokens rest

end

/-- A document as compact text. -/
def Json.text (j : Json) : String := .ofList (j.tokens.flatMap Token.chars)

/-- An array or object that is open. -/
inductive Frame
  /-- An array, by the elements so far, the latest first. -/
  | array (items : List Json)
  /-- An object, by the members so far and the name of the next one. -/
  | object (members : Properties Json) (name : String)

/-- What has been read, and what is due next. -/
inductive Reading
  /-- A document is due, or else the end of an array that has just been opened. -/
  | due (opened : Bool) (stack : List Frame)
  /-- The name of a member is due, or else the end of an object that has just been opened. -/
  | name (opened : Bool) (members : Properties Json) (stack : List Frame)
  /-- A colon is due after a name. -/
  | colon (members : Properties Json) (name : String) (stack : List Frame)
  /-- A document is complete, and what is open is due to go on or to end. -/
  | complete (j : Json) (stack : List Frame)

namespace Reading

/-- Takes a token where a document is due. -/
def document (stack : List Frame) : Token → Option Reading
  | .null => some (complete .null stack)
  | .bool b => some (complete (.bool b) stack)
  | .number n => some (complete (.number n) stack)
  | .string s => some (complete (.string s) stack)
  | .openArray => if stack.length < maxDepth then some (due true (.array [] :: stack)) else none
  | .openObject => if stack.length < maxDepth then some (name true .empty stack) else none
  | _ => none

/-- Takes one token. -/
def step : Reading → Token → Option Reading
  | due true (.array [] :: stack), .closeArray => some (complete (.array []) stack)
  | due _ stack, token => document stack token
  | name true members stack, .closeObject => some (complete (.object members) stack)
  | name _ members stack, .string key => some (colon members key stack)
  | colon members key stack, .colon => some (due false (.object members key :: stack))
  | complete j (.array items :: stack), .comma => some (due false (.array (j :: items) :: stack))
  | complete j (.array items :: stack), .closeArray =>
    some (complete (.array (j :: items).reverse) stack)
  | complete j (.object members key :: stack), .comma =>
    some (name false (members.insert key j) stack)
  | complete j (.object members key :: stack), .closeObject =>
    some (complete (.object (members.insert key j)) stack)
  | _, _ => none

/-- Takes tokens one after another. -/
def run (r : Reading) : List Token → Option Reading
  | [] => some r
  | token :: rest => (r.step token).bind fun next => next.run rest

/-- The document, if it is complete and nothing is open. -/
def result? : Reading → Option Json
  | complete j [] => some j
  | _ => none

end Reading

/-- The document that tokens make up. -/
def Json.ofTokens? (tokens : List Token) : Option Json :=
  ((Reading.due false []).run tokens).bind Reading.result?

/-- The document that a text stands for. -/
def Json.ofText? (text : String) : Option Json :=
  (Token.readAll text.toList).bind Json.ofTokens?

end CallGuard
