import CallGuard.Number.Rounding

/-!
# Integers among the numbers

The number nearest to an integer that is a number is that number, up to the sign of a
zero (`Number.numEq_ofInt_of_toInt?`) : a finite number is the nearest to its own units,
and an integer has as many. Rounding never moves an integer of 64 bits to an infinity
(`Number.isFinite_ofInt`), since the magnitude of a ratio grows with its binary length
alone (`Number.nearestMagnitude_le`).
-/

namespace CallGuard

theorem roundHalfEven_le (num den : Nat) : roundHalfEven num den ≤ num / den + 1 := by
  unfold roundHalfEven
  repeat' split
  all_goals omega

namespace Number

variable {x y : Number}

/-! ## Sizes -/

/-- What is rounded to a significand has at most 53 binary places before the point. -/
theorem div_scaled_lt (num den : Nat) :
    num / (den * 2 ^ ((num / den).log2 - 52)) < 2 ^ (53 : Nat) := by
  rw [← Nat.div_div_eq_div_mul, Nat.div_lt_iff_lt_mul (Nat.two_pow_pos _), ← Nat.pow_add]
  refine Nat.lt_of_lt_of_le Nat.lt_log2_self (Nat.pow_le_pow_right (by decide) ?_)
  omega

/-- A magnitude grows by `2 ^ 52` with each binary place. -/
theorem nearestMagnitude_le (num den : Nat) :
    nearestMagnitude num den ≤
      ((num / den).log2 - 52) * 2 ^ (52 : Nat) + 2 ^ (53 : Nat) := by
  have hquotient := div_scaled_lt num den
  have hround := roundHalfEven_le num (den * 2 ^ ((num / den).log2 - 52))
  unfold nearestMagnitude
  dsimp only
  omega

theorem isFinite_ofInt {n : Int} (h : n.natAbs ≤ 2 ^ (64 : Nat)) : (ofInt n).isFinite := by
  have hplaces : unitPlaces = 1074 := by rw [unitPlaces]
  have hlog : (n.natAbs * unitsPerOne / 1).log2 ≤ 64 + unitPlaces := by
    rw [Nat.div_one, unitsPerOne]
    by_cases hzero : n.natAbs * 2 ^ unitPlaces = 0
    · rw [hzero]
      exact Nat.zero_le _
    · refine Nat.le_of_lt_succ ((Nat.log2_lt hzero).2 ?_)
      refine Nat.lt_of_le_of_lt (Nat.mul_le_mul_right _ h) ?_
      rw [← Nat.pow_add]
      exact Nat.pow_lt_pow_right (by decide) (Nat.lt_succ_self _)
  have hle := nearestMagnitude_le (n.natAbs * unitsPerOne) 1
  have hlt : nearestMagnitude (n.natAbs * unitsPerOne) 1 < infinityMagnitude := by
    unfold infinityMagnitude
    omega
  have hinfinity : infinityMagnitude < 2 ^ (63 : Nat) := by decide
  rw [ofInt, ofRatio, ofUnits, Nat.min_eq_left (Nat.le_of_lt hlt), isFinite,
    magnitude_ofMagnitude _ (Nat.lt_trans hlt hinfinity)]
  exact decide_eq_true hlt

/-! ## Integers that are numbers -/

theorem isNaN_of_isFinite (h : x.isFinite) : x.isNaN = false := by
  simp only [isFinite, isNaN, decide_eq_true_eq, decide_eq_false_iff_not] at h ⊢
  omega

theorem isFinite_of_isZero (h : x.isZero) : x.isFinite := by
  simp only [isFinite, isZero, beq_iff_eq] at h ⊢
  rw [h]
  decide

theorem numEq_of_isZero (hx : x.isZero) (hy : y.isZero) : x.numEq y := by
  simp [numEq, hx, hy, isNaN_of_isFinite (isFinite_of_isZero hx),
    isNaN_of_isFinite (isFinite_of_isZero hy)]

theorem units_eq_zero_iff : x.units = 0 ↔ x.isZero := by
  constructor
  · intro h
    have hmagnitude := x.nearestMagnitude_units
    rw [h] at hmagnitude
    exact beq_iff_eq.2 hmagnitude.symm
  · intro h
    have hmagnitude : x.magnitude = 0 := beq_iff_eq.1 h
    simp [units, significand, hmagnitude]

theorem toInt?_of_isZero (h : x.isZero) : x.toInt? = some 0 := by
  simp [toInt?, isFinite_of_isZero h, units_eq_zero_iff.2 h]

/-- An integer that is a number is rounded to that number. -/
theorem numEq_ofInt_of_toInt? {n : Int} (h : x.toInt? = some n) : (ofInt n).numEq x := by
  unfold toInt? at h
  split at h
  · rename_i hx
    obtain ⟨hfinite, hmod⟩ := hx
    have hunits := Nat.div_mul_cancel (Nat.dvd_of_mod_eq_zero hmod)
    generalize x.units / unitsPerOne = size at h hunits
    have habs : n.natAbs = size := by
      cases h
      split <;> omega
    have hofInt : ofInt n = ofUnits (decide (n < 0)) x.units 1 := by
      rw [ofInt, ofRatio, habs, hunits]
    -- An integer has one zero, so that the sign is kept only off zero.
    cases hzero : x.isZero with
    | true =>
      refine numEq_of_isZero ?_ hzero
      rw [hofInt, ofUnits_units_eq_ofMagnitude _ hfinite, isZero,
        magnitude_ofMagnitude _ x.magnitude_lt]
      exact hzero
    | false =>
      have hsize : size ≠ 0 := by
        rintro rfl
        rw [Nat.zero_mul] at hunits
        rw [units_eq_zero_iff.1 hunits.symm] at hzero
        cases hzero
      have hsign : decide (n < 0) = x.isNegative := by
        cases h
        cases x.isNegative with
        | false => simp
        | true =>
          simp
          omega
      rw [hofInt, hsign, ofUnits_units hfinite, numEq_self, isNaN_of_isFinite hfinite]
      rfl
  · cases h

end Number

end CallGuard
