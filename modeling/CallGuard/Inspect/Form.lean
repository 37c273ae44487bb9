/-!
# Forms of inspection

Inspection shows how a thing is built : constructors with their fields, lists,
texts between quotation marks. These are the forms that everything is put into.
-/

namespace CallGuard.Inspect

/-- A character of a text under inspection. The mark and the backslash are escaped, the usual
control characters are written with a letter and other ones by their code point. -/
def escapedChar (c : Char) : List Char :=
  if c = '"' ∨ c = '\\' then ['\\', c]
  else if c = '\n' then ['\\', 'n']
  else if c = '\r' then ['\\', 'r']
  else if c = '\t' then ['\\', 't']
  else if c.toNat = 0 then ['\\', '0']
  else if c.toNat < 0x20 ∨ c.toNat = 0x7f then
    '\\' :: 'u' :: '\x7b' :: Nat.toDigits 16 c.toNat ++ ['\x7d']
  else [c]

/-- A text. -/
def text (s : String) : String := .ofList ('"' :: s.toList.flatMap escapedChar ++ ['"'])

/-- A truth value. -/
def bool (b : Bool) : String := if b then "true" else "false"

/-- A constructor around one thing. -/
def tuple (name content : String) : String := name ++ "(" ++ content ++ ")"

/-- A thing that may be absent. -/
def option : Option String → String
  | some content => tuple "Some" content
  | none => "None"

/-- Things in order. -/
def list (contents : List String) : String := "[" ++ ", ".intercalate contents ++ "]"

/-- Things with labels, in order. -/
def labelled (pairs : List (String × String)) : String :=
  ", ".intercalate (pairs.map fun pair => pair.1 ++ ": " ++ pair.2)

/-- A constructor with fields. -/
def record (name : String) (fields : List (String × String)) : String :=
  name ++ " \x7b " ++ labelled fields ++ " \x7d"

/-- Things under their keys. -/
def map (pairs : List (String × String)) : String :=
  "\x7b" ++ labelled (pairs.map fun pair => (text pair.1, pair.2)) ++ "\x7d"

example : text "q\"b\\n\n" = "\"q\\\"b\\\\n\\n\"" := by decide

end CallGuard.Inspect
