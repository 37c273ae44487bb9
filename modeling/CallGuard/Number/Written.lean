import CallGuard.Number.Shortest

/-!
# Written numbers

How a number is written : as the shortest decimal that reads back, in one of
three styles. A `NumberStyle` holds what sets the styles apart.

* `NumberStyle.plain` is for messages. It never uses an exponent or writes the
  sign of a zero : `100000000000000000000`, `0.0000001`, `0`.
* `NumberStyle.data` is for JSON. It always has a point or an exponent, with
  a sign : `9007199254740992.0`, `1e+16`, `1.5e-7`.
* `NumberStyle.inspection` is for debugging. It has a point or an exponent and
  keeps the sign of a zero : `1.0`, `-0.0`, `1e16`, `1.5e-7`.

A decimal with digits `d₁ … dₙ` and exponent `e` has its leading digit at the
power of ten `n + e - 1`, and `positional` puts `n + e` digits before the point.
-/

namespace CallGuard

/-- The digits of a natural number. -/
def digitsOf (n : Nat) : List Char := Nat.toDigits 10 n

namespace Decimal

/-- The power of ten of the leading digit. -/
def leadingPower (d : Decimal) : Int := (digitsOf d.digits).length + d.exponent - 1

/-- Digits and zeros with a point where it belongs. Without digits after the point there is
none, unless `pointed` asks for a zero there. -/
def positional (pointed : Bool) (d : Decimal) : List Char :=
  let digits := digitsOf d.digits
  if 0 ≤ d.exponent then
    digits ++ .replicate d.exponent.toNat '0' ++ if pointed then ['.', '0'] else []
  else
    let places := (-d.exponent).toNat
    if places < digits.length then
      digits.take (digits.length - places) ++ '.' :: digits.drop (digits.length - places)
    else
      '0' :: '.' :: .replicate (places - digits.length) '0' ++ digits

/-- One digit before the point and a power of ten, `plus` in front of one that is not negative. -/
def scientific (plus : List Char) (d : Decimal) : List Char :=
  let mantissa :=
    match digitsOf d.digits with
    | first :: second :: rest => first :: '.' :: second :: rest
    | digits => digits
  let sign := if d.leadingPower < 0 then ['-'] else plus
  mantissa ++ 'e' :: sign ++ digitsOf d.leadingPower.natAbs

end Decimal

/-- The decisions of a way to write numbers. -/
structure NumberStyle where
  /-- Which of two equally near shortest decimals is written. -/
  tie : Tie
  /-- Whether a decimal with this leading power is written without an exponent. -/
  isPositional : Int → Bool
  /-- Whether a whole number keeps a point and a zero. -/
  pointed : Bool
  /-- What stands before an exponent that is not negative. -/
  plus : List Char
  /-- Whether a zero keeps its sign. -/
  signedZero : Bool

namespace NumberStyle

/-- Numbers in messages. -/
def plain : NumberStyle where
  tie := .up
  isPositional _ := true
  pointed := false
  plus := []
  signedZero := false

/-- Numbers in JSON text that are not written as integers. -/
def data : NumberStyle where
  tie := .even
  isPositional power := decide (-5 ≤ power ∧ power ≤ 15)
  pointed := true
  plus := ['+']
  signedZero := true

/-- Numbers under inspection. -/
def inspection : NumberStyle where
  tie := .up
  isPositional power := decide (-4 ≤ power ∧ power ≤ 15)
  pointed := true
  plus := []
  signedZero := true

/-- A decimal in a style. -/
def decimal (style : NumberStyle) (d : Decimal) : List Char :=
  if style.isPositional d.leadingPower then d.positional style.pointed else d.scientific style.plus

end NumberStyle

namespace Number

/-- The size of a finite number, in a style. -/
def writeSize (style : NumberStyle) (x : Number) : String :=
  if x.isZero then if style.pointed then "0.0" else "0"
  else .ofList (style.decimal (x.shortest style.tie))

/-- A finite number, in a style. -/
def writeFinite (style : NumberStyle) (x : Number) : String :=
  if x.isNegative ∧ (style.signedZero ∨ !x.isZero) then "-" ++ x.writeSize style
  else x.writeSize style

/-- A number in a style, with a word for infinity. -/
def write (style : NumberStyle) (infinity : String) (x : Number) : String :=
  if x.isNaN then "NaN"
  else if x.isInfinite then if x.isNegative then "-" ++ infinity else infinity
  else x.writeFinite style

/-- A number in a message. -/
def text (x : Number) : String := x.write .plain "Infinity"

/-- A number under inspection. -/
def inspect (x : Number) : String := x.write .inspection "inf"

example : [ofInt (-12), ofRatio false 1 10, ofRatio true 15 10000000, zero true,
    infinity true].map text =
    ["-12", "0.1", "-0.0000015", "0", "-Infinity"] := by decide +kernel

example : [ofInt (10 ^ 16), ofInt (2 ^ 53), ofRatio false 1 100000].map (writeFinite .data) =
    ["1e+16", "9007199254740992.0", "0.00001"] := by decide +kernel

example : [ofInt (10 ^ 16), ofInt 1, zero true, ofRatio false 15 10000000].map inspect =
    ["1e16", "1.0", "-0.0", "1.5e-6"] := by decide +kernel

end Number

end CallGuard
