import CallGuard.Json.Basic
import CallGuard.Number.Written

/-!
# Numbers of JSON

A number is a sign, digits without a needless zero in front, and perhaps a
fraction and an exponent. Digits alone are an integer if 64 bits hold it, and
all other numbers are the nearest binary64 number; so are digits alone behind
`-0`, which is the negative zero. A number too large for binary64 is refused.

`Numeral` holds what is written; `Numeral.value?` is the number it stands for.
-/

namespace CallGuard

/-- The value of digits. -/
def digitsValue (digits : List Char) : Nat := Nat.ofDigitChars 10 digits 0

/-- A number as it is written. -/
structure Numeral where
  /-- Whether there is a minus sign. -/
  negative : Bool
  /-- The digits before the point. -/
  whole : List Char
  /-- The digits after the point, if there is one. -/
  fraction? : Option (List Char)
  /-- The exponent, if there is one. -/
  exponent? : Option Int
  deriving DecidableEq

namespace Numeral

/-- The binary64 number nearest to a numeral. That numbers are read so is assumed, and it is what
lets a number that has been written be read back : a reader that calculates in binary64 can be one
unit in the last place off for a numeral of many digits, such as `0.9452706955539223`. -/
def nearest (n : Numeral) : Number :=
  let fraction := n.fraction?.getD []
  .ofDecimal n.negative (digitsValue (n.whole ++ fraction)) (n.exponent?.getD 0 - fraction.length)

/-- A number as a JSON number, if it is finite. -/
def real? (x : Number) : Option JsonNumber :=
  if finite : x.isFinite then some (.real x finite) else none

/-- The JSON number that a numeral stands for. -/
def value? (n : Numeral) : Option JsonNumber :=
  if n.fraction?.isNone ∧ n.exponent?.isNone then
    let size := digitsValue n.whole
    if n.negative then
      if small : 0 < size ∧ size ≤ 2 ^ (63 : Nat) then some (.integer (-size) (by omega))
      else real? n.nearest
    else
      if small : size < 2 ^ (64 : Nat) then some (.integer size (by omega))
      else real? n.nearest
  else real? n.nearest

end Numeral

/-- Splits the digits off the front of a text. -/
def spanDigits (s : List Char) : List Char × List Char :=
  (s.takeWhile Char.isDigit, s.dropWhile Char.isDigit)

/-- Takes a sign off the front, and says whether it is a minus. Only a minus is a sign unless
`plus` allows the other one. -/
def readSign (plus : Bool) : List Char → Bool × List Char
  | '-' :: rest => (true, rest)
  | '+' :: rest => if plus then (false, rest) else (false, '+' :: rest)
  | s => (false, s)

/-- Digits before a point : at least one, and no zero before others. -/
def readWhole (s : List Char) : Option (List Char × List Char) :=
  match spanDigits s with
  | ([], _) => none
  | ('0' :: _ :: _, _) => none
  | (digits, rest) => some (digits, rest)

/-- A fraction, if there is a point. -/
def readFraction : List Char → Option (Option (List Char) × List Char)
  | '.' :: s =>
    match spanDigits s with
    | ([], _) => none
    | (digits, rest) => some (some digits, rest)
  | s => some (none, s)

/-- The sign and digits of an exponent. -/
def readPower (s : List Char) : Option (Option Int × List Char) :=
  match spanDigits (readSign true s).2 with
  | ([], _) => none
  | (digits, rest) =>
    let size : Int := digitsValue digits
    some (some (if (readSign true s).1 then -size else size), rest)

/-- An exponent, if there is the letter for it. -/
def readExponent : List Char → Option (Option Int × List Char)
  | 'e' :: s => readPower s
  | 'E' :: s => readPower s
  | s => some (none, s)

/-- A numeral at the front of a text, and what follows it. -/
def readNumeral (s : List Char) : Option (Numeral × List Char) :=
  (readWhole (readSign false s).2).bind fun (whole, rest) =>
    (readFraction rest).bind fun (fraction?, rest) =>
      (readExponent rest).map fun (exponent?, rest) =>
        (⟨(readSign false s).1, whole, fraction?, exponent?⟩, rest)

/-- A number at the front of a text, and what follows it. -/
def readNumber (s : List Char) : Option (JsonNumber × List Char) :=
  (readNumeral s).bind fun (numeral, rest) => numeral.value?.map fun n => (n, rest)

/-- A JSON number as it is written. -/
def JsonNumber.text : JsonNumber → String
  | integer n _ => n.repr
  | real x _ => x.writeFinite .data

/-! ## A numeral takes something -/

theorem length_spanDigits (s : List Char) :
    (spanDigits s).1.length + (spanDigits s).2.length = s.length := by
  rw [spanDigits, ← List.length_append, List.takeWhile_append_dropWhile]

theorem length_readSign_le (plus : Bool) (s : List Char) :
    (readSign plus s).2.length ≤ s.length := by
  unfold readSign
  split
  · simp
  · split <;> simp
  · simp

theorem length_lt_of_readWhole {s whole rest : List Char} (h : readWhole s = some (whole, rest)) :
    rest.length < s.length := by
  have hs := length_spanDigits s
  unfold readWhole at h
  split at h
  · cases h
  · cases h
  · rename_i digits r hne _ he
    cases h
    rw [he] at hs
    have := List.length_pos_iff.2 (show whole ≠ [] from hne)
    simp only at hs
    omega

theorem length_le_of_readFraction {s rest : List Char} {fraction? : Option (List Char)}
    (h : readFraction s = some (fraction?, rest)) : rest.length ≤ s.length := by
  unfold readFraction at h
  split at h
  · rename_i t
    have hs := length_spanDigits t
    split at h
    · cases h
    · rename_i he
      cases h
      rw [he] at hs
      simp only [List.length_cons] at hs ⊢
      omega
  · cases h
    exact Nat.le_refl _

theorem length_le_of_readPower {s rest : List Char} {exponent? : Option Int}
    (h : readPower s = some (exponent?, rest)) : rest.length ≤ s.length := by
  have hsign := length_readSign_le true s
  unfold readPower at h
  dsimp only at h
  have hs := length_spanDigits (readSign true s).2
  split at h
  · cases h
  · rename_i he
    cases h
    rw [he] at hs
    simp only at hs
    omega

theorem length_le_of_readExponent {s rest : List Char} {exponent? : Option Int}
    (h : readExponent s = some (exponent?, rest)) : rest.length ≤ s.length := by
  unfold readExponent at h
  split at h
  · have := length_le_of_readPower h
    simp only [List.length_cons]
    omega
  · have := length_le_of_readPower h
    simp only [List.length_cons]
    omega
  · cases h
    exact Nat.le_refl _

theorem length_lt_of_readNumeral {s rest : List Char} {n : Numeral}
    (h : readNumeral s = some (n, rest)) : rest.length < s.length := by
  have hsign := length_readSign_le false s
  obtain ⟨⟨whole, s₁⟩, hw, h⟩ := Option.bind_eq_some_iff.1 h
  obtain ⟨⟨fraction?, s₂⟩, hf, h⟩ := Option.bind_eq_some_iff.1 h
  obtain ⟨⟨exponent?, s₃⟩, he, h⟩ := Option.map_eq_some_iff.1 h
  cases h
  have h1 := length_lt_of_readWhole hw
  have h2 := length_le_of_readFraction hf
  have h3 := length_le_of_readExponent he
  omega

theorem length_lt_of_readNumber {s rest : List Char} {n : JsonNumber}
    (h : readNumber s = some (n, rest)) : rest.length < s.length := by
  obtain ⟨⟨numeral, r⟩, hr, h⟩ := Option.bind_eq_some_iff.1 h
  obtain ⟨value, -, h⟩ := Option.map_eq_some_iff.1 h
  cases h
  exact length_lt_of_readNumeral hr

example : readNumber "-0".toList = some (.real (.zero true) (by decide), []) := by decide +kernel

example : readNumber "1.5e3,".toList = some (.real (.ofInt 1500) (by decide +kernel), [',']) := by
  decide +kernel

example : readNumber "1e400".toList = none := by decide +kernel

end CallGuard
