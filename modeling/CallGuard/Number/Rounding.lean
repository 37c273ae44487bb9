import CallGuard.Number.Basic

/-!
# Rounding to the nearest number

`ofRatio` gives the number nearest to a ratio of natural numbers, a tie going
to the neighbour with the even significand, and an infinity where the ratio is
too large. It divides once, exactly : the ratio in units is cut to the scale at
which its leading bit has place 52 (or to scale zero), and what is left over
decides the direction. A significand that rounds up to `2 ^ 53` needs no care,
because `scale * 2 ^ 52 + 2 ^ 53` is the magnitude one scale up.

Integers, single precision words, doubled numbers and decimals are all read
through it.
-/

namespace CallGuard

/-- The integer nearest to `num / den`, a half going to the even neighbour. -/
def roundHalfEven (num den : Nat) : Nat :=
  if 2 * (num % den) < den then num / den
  else if den < 2 * (num % den) then num / den + 1
  else if num / den % 2 = 0 then num / den
  else num / den + 1

/-- Rounding leaves an integer alone. -/
@[simp] theorem roundHalfEven_mul (n : Nat) {den : Nat} (h : 0 < den) :
    roundHalfEven (n * den) den = n := by
  simp [roundHalfEven, Nat.mul_mod_left, h]

namespace Number

/-- The magnitude nearest to `num / den` units, were there no largest one. -/
def nearestMagnitude (num den : Nat) : Nat :=
  let scale := (num / den).log2 - 52
  scale * 2 ^ (52 : Nat) + roundHalfEven num (den * 2 ^ scale)

/-- The number nearest to `num / den` units. -/
def ofUnits (negative : Bool) (num den : Nat) : Number :=
  ofMagnitude negative (min (nearestMagnitude num den) infinityMagnitude)

/-- The number nearest to `num / den`. -/
def ofRatio (negative : Bool) (num den : Nat) : Number := ofUnits negative (num * unitsPerOne) den

/-- The number nearest to an integer. -/
def ofInt (n : Int) : Number := ofRatio (decide (n < 0)) n.natAbs 1

/-- The number that a binary32 word stands for. Every such number is a binary64
number too. -/
def ofSingle (word : UInt32) : Number :=
  let negative := decide (2 ^ (31 : Nat) ≤ word.toNat)
  let exponent := word.toNat / 2 ^ (23 : Nat) % 2 ^ (8 : Nat)
  let fraction := word.toNat % 2 ^ (23 : Nat)
  if exponent = 255 then
    if fraction = 0 then infinity negative else nan
  else if exponent = 0 then ofUnits negative (fraction * 2 ^ (unitPlaces - 149)) 1
  else ofUnits negative ((2 ^ (23 : Nat) + fraction) * 2 ^ (exponent + unitPlaces - 150)) 1

/-- Twice a number. -/
def double (x : Number) : Number :=
  if x.isFinite then ofUnits x.isNegative (2 * x.units) 1 else x

/-- The number nearest to `digits * 10 ^ exponent`. Exponents so large or so small
that no digits could matter are answered at once. -/
def ofDecimal (negative : Bool) (digits : Nat) (exponent : Int) : Number :=
  if digits = 0 then zero negative
  else if 400 < exponent then infinity negative
  else if exponent < -(400 + digits.log2 : Nat) then zero negative
  else ofRatio negative (digits * 10 ^ exponent.toNat) (10 ^ (-exponent).toNat)

/-! ## Laws -/

/-- A whole number of units with at most 53 bits before its trailing zeros is met exactly. -/
theorem nearestMagnitude_of_log2 {m k : Nat} (hm : m < 2 ^ (53 : Nat))
    (hk : k = 0 ∨ 2 ^ (52 : Nat) ≤ m) :
    nearestMagnitude (m * 2 ^ k) 1 = k * 2 ^ (52 : Nat) + m := by
  have hlog : (m * 2 ^ k / 1).log2 - 52 = k := by
    rw [Nat.div_one]
    rcases hk with rfl | hk
    · rw [Nat.pow_zero, Nat.mul_one]
      by_cases h0 : m = 0
      · subst h0; rfl
      · have := (Nat.log2_lt h0).2 hm
        omega
    · have h0 : m ≠ 0 := by omega
      have hp : m * 2 ^ k ≠ 0 := Nat.mul_ne_zero h0 (Nat.ne_of_gt (Nat.two_pow_pos k))
      have hlow : 52 + k ≤ (m * 2 ^ k).log2 := by
        rw [Nat.le_log2 hp, Nat.pow_add]
        exact Nat.mul_le_mul_right _ hk
      have hhigh : (m * 2 ^ k).log2 < 53 + k := by
        rw [Nat.log2_lt hp, Nat.pow_add]
        exact Nat.mul_lt_mul_of_pos_right hm (Nat.two_pow_pos k)
      omega
  unfold nearestMagnitude
  simp only [hlog, Nat.one_mul]
  rw [roundHalfEven_mul _ (Nat.two_pow_pos k)]

/-- The units of a finite number round to its own magnitude. -/
theorem nearestMagnitude_units (x : Number) : nearestMagnitude x.units 1 = x.magnitude := by
  rw [units, nearestMagnitude_of_log2 x.significand_lt, ← x.magnitude_eq]
  rcases Nat.eq_zero_or_pos x.scale with h | h
  · exact Or.inl h
  · exact Or.inr (le_significand_of_scale_pos h)

theorem ofUnits_units_eq_ofMagnitude (negative : Bool) {x : Number} (h : x.isFinite) :
    ofUnits negative x.units 1 = ofMagnitude negative x.magnitude := by
  have hf : x.magnitude < infinityMagnitude := by simpa [isFinite] using h
  rw [ofUnits, nearestMagnitude_units, Nat.min_eq_left (Nat.le_of_lt hf)]

/-- A finite number is the number nearest to its units. -/
theorem ofUnits_units {x : Number} (h : x.isFinite) : ofUnits x.isNegative x.units 1 = x := by
  rw [ofUnits_units_eq_ofMagnitude _ h]
  exact ext_magnitude (isNegative_ofMagnitude _ x.magnitude_lt)
    (magnitude_ofMagnitude _ x.magnitude_lt)

example : ofInt 9007199254740993 = ofInt 9007199254740992 := by decide +kernel

example : (ofInt (-3)).toInt? = some (-3) := by decide +kernel

end Number

end CallGuard
