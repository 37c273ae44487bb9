/-!
# Numbers

A number is a binary64 word. All arithmetic on numbers here is exact
arithmetic on natural numbers : a finite number is a sign and a whole number
of *units*, the unit being the least positive number, `2 ^ (-1074)`.

The 63 bits below the sign are the `magnitude`. Magnitudes order numbers by
size, so the finite ones are those below `infinityMagnitude` and the ones
above it are the NaNs. A finite magnitude is `scale * 2 ^ 52 + significand`
and stands for `significand * 2 ^ scale` units; the significand reaches
`2 ^ 52` exactly when the scale, or the magnitude's exponent field, is not
zero. `magnitude_eq` says so.

`numEq` is numeric equality : NaN equals nothing and the two zeros are equal.
It is symmetric and transitive, and reflexive away from NaN.
-/

namespace CallGuard

-- Powers are those of the core library here and in every module that uses this one, so that a
-- statement about them means the same whatever else is in scope.
attribute [scoped instance (2000)] instPowNat

/-- A binary64 number, by its bits. -/
structure Number where
  /-- The sign, the exponent field and the fraction, from the top. -/
  bits : UInt64
  deriving DecidableEq

namespace Number

/-- The magnitude of the infinities : all exponent bits and no fraction. -/
def infinityMagnitude : Nat := 2047 * 2 ^ (52 : Nat)

/-- The unit is `2 ^ (-unitPlaces)`. -/
@[irreducible] def unitPlaces : Nat := 1074

/-- How many units make one. -/
def unitsPerOne : Nat := 2 ^ unitPlaces

/-- Whether the sign bit is set. -/
def isNegative (x : Number) : Bool := decide (2 ^ (63 : Nat) ≤ x.bits.toNat)

/-- The bits below the sign. -/
def magnitude (x : Number) : Nat := x.bits.toNat % 2 ^ (63 : Nat)

/-- The number with a sign and a magnitude. -/
def ofMagnitude (negative : Bool) (magnitude : Nat) : Number :=
  ⟨.ofNat (magnitude % 2 ^ (63 : Nat) + if negative then 2 ^ (63 : Nat) else 0)⟩

/-- Not a number. -/
def nan : Number := ofMagnitude false (infinityMagnitude + 2 ^ (51 : Nat))

/-- An infinity. -/
def infinity (negative : Bool) : Number := ofMagnitude negative infinityMagnitude

/-- A zero. -/
def zero (negative : Bool) : Number := ofMagnitude negative 0

/-- Whether this is a NaN. -/
def isNaN (x : Number) : Bool := decide (infinityMagnitude < x.magnitude)

/-- Whether this is one of the two infinities. -/
def isInfinite (x : Number) : Bool := x.magnitude == infinityMagnitude

/-- Whether this is neither a NaN nor an infinity. -/
def isFinite (x : Number) : Bool := decide (x.magnitude < infinityMagnitude)

/-- Whether this is one of the two zeros. -/
def isZero (x : Number) : Bool := x.magnitude == 0

/-- The power of two that a significand is multiplied by, in units. -/
def scale (x : Number) : Nat := x.magnitude / 2 ^ (52 : Nat) - 1

/-- The 53 leading bits, or fewer when the scale is zero. -/
def significand (x : Number) : Nat := x.magnitude - x.scale * 2 ^ (52 : Nat)

/-- The size of a finite number, in units. -/
def units (x : Number) : Nat := x.significand * 2 ^ x.scale

/-- Whether this is above zero. -/
def isPositive (x : Number) : Bool := !x.isNaN && !x.isNegative && !x.isZero

/-- The integer that a finite number without a fraction is. -/
def toInt? (x : Number) : Option Int :=
  if x.isFinite ∧ x.units % unitsPerOne = 0 then
    some (if x.isNegative then -(x.units / unitsPerOne : Nat) else (x.units / unitsPerOne : Nat))
  else none

/-- Numeric equality. -/
def numEq (x y : Number) : Bool :=
  !x.isNaN && !y.isNaN && (decide (x = y) || x.isZero && y.isZero)

/-! ## Laws -/

theorem magnitude_lt (x : Number) : x.magnitude < 2 ^ (63 : Nat) := Nat.mod_lt _ (by decide)

/-- A magnitude is its scale and its significand. -/
theorem magnitude_eq (x : Number) : x.magnitude = x.scale * 2 ^ (52 : Nat) + x.significand := by
  have h := Nat.div_mul_le_self x.magnitude (2 ^ (52 : Nat))
  have hs : x.scale * 2 ^ (52 : Nat) ≤ x.magnitude / 2 ^ (52 : Nat) * 2 ^ (52 : Nat) :=
    Nat.mul_le_mul_right _ (Nat.sub_le _ _)
  rw [significand]
  omega

/-- A significand has at most 53 bits. -/
theorem significand_lt (x : Number) : x.significand < 2 ^ (53 : Nat) := by
  have h := x.magnitude_eq
  have hd := Nat.div_add_mod x.magnitude (2 ^ (52 : Nat))
  have hm := Nat.mod_lt x.magnitude (show 0 < 2 ^ (52 : Nat) by decide)
  have hs : x.scale = x.magnitude / 2 ^ (52 : Nat) - 1 := rfl
  rcases Nat.eq_zero_or_pos (x.magnitude / 2 ^ (52 : Nat)) with h0 | h0
  · rw [h0] at hs hd
    rw [hs] at h
    omega
  · omega

/-- Off scale zero the significand has exactly 53 bits. -/
theorem le_significand_of_scale_pos {x : Number} (_ : 0 < x.scale) :
    2 ^ (52 : Nat) ≤ x.significand := by
  have he := x.magnitude_eq
  have hd := Nat.div_add_mod x.magnitude (2 ^ (52 : Nat))
  have hs : x.scale = x.magnitude / 2 ^ (52 : Nat) - 1 := rfl
  omega

@[simp] theorem magnitude_ofMagnitude (negative : Bool) {m : Nat} (_ : m < 2 ^ (63 : Nat)) :
    (ofMagnitude negative m).magnitude = m := by
  cases negative <;> simp only [ofMagnitude, magnitude, UInt64.toNat_ofNat'] <;> simp <;> omega

@[simp] theorem isNegative_ofMagnitude (negative : Bool) {m : Nat} (_ : m < 2 ^ (63 : Nat)) :
    (ofMagnitude negative m).isNegative = negative := by
  cases negative <;> simp only [ofMagnitude, isNegative, UInt64.toNat_ofNat'] <;> simp <;> omega

/-- The sign and the magnitude determine a number. -/
theorem ext_magnitude {x y : Number} (hs : x.isNegative = y.isNegative)
    (hm : x.magnitude = y.magnitude) : x = y := by
  obtain ⟨a⟩ := x
  obtain ⟨b⟩ := y
  simp only [isNegative, magnitude, decide_eq_decide] at hs hm
  have ha := a.toNat_lt
  have hb := b.toNat_lt
  congr 1
  apply UInt64.toNat_inj.1
  omega

theorem numEq_comm (x y : Number) : x.numEq y = y.numEq x := by
  have : decide (x = y) = decide (y = x) := by rw [decide_eq_decide]; exact eq_comm
  unfold numEq
  rw [this, Bool.and_comm (!x.isNaN), Bool.and_comm x.isZero]

theorem numEq_trans {x y z : Number} (h : x.numEq y) (h' : y.numEq z) : x.numEq z := by
  simp only [numEq, Bool.and_eq_true, Bool.not_eq_true', Bool.or_eq_true, decide_eq_true_eq] at *
  obtain ⟨⟨hx, hy⟩, hxy⟩ := h
  obtain ⟨⟨-, hz⟩, hyz⟩ := h'
  refine ⟨⟨hx, hz⟩, ?_⟩
  rcases hxy with rfl | hxy
  · exact hyz
  · rcases hyz with rfl | hyz
    · exact Or.inr hxy
    · exact Or.inr ⟨hxy.1, hyz.2⟩

@[simp] theorem numEq_self (x : Number) : x.numEq x = !x.isNaN := by
  unfold numEq
  cases x.isNaN <;> simp

end Number

end CallGuard
