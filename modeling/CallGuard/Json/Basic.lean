import CallGuard.Number.Rounding
import CallGuard.Properties

/-!
# JSON documents

A document is null, a truth value, a number, a text, an array or an object
whose members are in order and have distinct names. A number is an integer of
64 bits, with or without sign, or a finite binary64 number; the two are kept
apart, as `1` and `1.0` are in text.
-/

namespace CallGuard

/-- A number of a JSON document. -/
inductive JsonNumber
  /-- An integer that a 64-bit word can hold, signed or unsigned. -/
  | integer (n : Int) (bounds : -2 ^ (63 : Nat) ≤ n ∧ n < 2 ^ (64 : Nat))
  /-- A number that is not an integer, or too large, or written as if it were. -/
  | real (x : Number) (finite : x.isFinite = true)
  deriving DecidableEq

/-- A JSON document. -/
inductive Json : Type
  /-- Nothing. -/
  | null
  /-- A truth value. -/
  | bool (b : Bool)
  /-- A number. -/
  | number (n : JsonNumber)
  /-- A text. -/
  | string (s : String)
  /-- An array. -/
  | array (items : List Json)
  /-- An object. -/
  | object (members : Properties Json)

instance : Inhabited Json := ⟨.null⟩

/-- The nearest binary64 number. -/
def JsonNumber.toNumber : JsonNumber → Number
  | integer n _ => .ofInt n
  | real x _ => x

end CallGuard
