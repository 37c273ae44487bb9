import CallGuard.Number.Shortest
import CallGuard.Proofs.Integers

/-!
# Decimals near a number

The decimals in the cell of a number are those that round to it, so that the number is read back
from whichever of them is written (`Number.ofDecimal_of_contains`).

A ratio is rounded at the scale that its size sets. For a ratio in the cell that is the scale of the
number, and the significand is the nearest integer (`nearestMagnitude_of_near`); only just below a
power of two the scale is one less, and then `2 ^ 53` is nearest, which is the same magnitude
(`nearestMagnitude_of_near_below`). Decimals that are answered at once, because they are too large
or too small for any number, are in no cell (`Number.exponent_le_of_contains`,
`Number.le_exponent_of_contains`).
-/

namespace CallGuard

/-! ## Rounding a ratio -/

/-- An integer no further away than a half is the nearest, if it is even or nearer than that. -/
theorem roundHalfEven_of_near {num den m : Nat} (hden : 0 < den)
    (hlow : 2 * (m * den) ≤ 2 * num + den) (hhigh : 2 * num ≤ 2 * (m * den) + den)
    (htie : m % 2 = 0 ∨ 2 * (m * den) < 2 * num + den ∧ 2 * num < 2 * (m * den) + den) :
    roundHalfEven num den = m := by
  have hdiv := Nat.div_add_mod num den
  have hmod := Nat.mod_lt num hden
  rw [Nat.mul_comm] at hdiv
  have hle : m ≤ num / den + 1 := by
    refine Nat.le_of_lt_succ (Nat.lt_of_mul_lt_mul_right (a := den) ?_)
    rw [Nat.succ_mul, Nat.succ_mul]
    omega
  have hge : num / den ≤ m := by
    refine Nat.le_of_lt_succ (Nat.lt_of_mul_lt_mul_right (a := den) ?_)
    rw [Nat.succ_mul]
    omega
  unfold roundHalfEven
  generalize num / den = q at *
  generalize num % den = r at *
  have hsucc : (q + 1) * den = q * den + den := Nat.succ_mul q den
  obtain rfl | rfl : m = q ∨ m = q + 1 := by omega
  all_goals
    repeat' split
    all_goals omega

namespace Number

/-- The scale is set by the binary places of a ratio. -/
theorem log2_div_sub_eq {num den scale : Nat} (hden : 0 < den)
    (hhigh : num < 2 ^ (53 : Nat) * (den * 2 ^ scale))
    (hlow : scale = 0 ∨ 2 ^ (52 : Nat) * (den * 2 ^ scale) ≤ num) :
    (num / den).log2 - 52 = scale := by
  have hlt : num / den < 2 ^ (53 + scale) := by
    rw [Nat.div_lt_iff_lt_mul hden, Nat.pow_add, Nat.mul_assoc, Nat.mul_comm (2 ^ scale)]
    exact hhigh
  rcases Nat.eq_zero_or_pos (num / den) with hzero | hpos
  · rcases hlow with rfl | hlow
    · rw [hzero]
      rfl
    · have hge : 2 ^ (52 + scale) ≤ num / den := by
        rw [Nat.le_div_iff_mul_le hden, Nat.pow_add, Nat.mul_assoc, Nat.mul_comm (2 ^ scale)]
        exact hlow
      exact absurd (hzero ▸ hge) (Nat.not_le.2 (Nat.two_pow_pos _))
  · have hlog := (Nat.log2_lt (Nat.ne_of_gt hpos)).2 hlt
    rcases hlow with rfl | hlow
    · omega
    · have hge : 2 ^ (52 + scale) ≤ num / den := by
        rw [Nat.le_div_iff_mul_le hden, Nat.pow_add, Nat.mul_assoc, Nat.mul_comm (2 ^ scale)]
        exact hlow
      have := (Nat.le_log2 (Nat.ne_of_gt hpos)).2 hge
      omega

/-- A ratio that is near a number at the scale of it is rounded to the magnitude of it. -/
theorem nearestMagnitude_of_near (x : Number) {num den : Nat} (hden : 0 < den)
    (hscale : x.scale = 0 ∨ 2 ^ (52 : Nat) * (den * 2 ^ x.scale) ≤ num)
    (hlow : 2 * (x.significand * (den * 2 ^ x.scale)) ≤ 2 * num + den * 2 ^ x.scale)
    (hhigh : 2 * num ≤ 2 * (x.significand * (den * 2 ^ x.scale)) + den * 2 ^ x.scale)
    (htie : x.significand % 2 = 0 ∨
      2 * (x.significand * (den * 2 ^ x.scale)) < 2 * num + den * 2 ^ x.scale ∧
        2 * num < 2 * (x.significand * (den * 2 ^ x.scale)) + den * 2 ^ x.scale) :
    nearestMagnitude num den = x.magnitude := by
  have hstep : 0 < den * 2 ^ x.scale := Nat.mul_pos hden (Nat.two_pow_pos _)
  have hsignificand : (x.significand + 1) * (den * 2 ^ x.scale) ≤
      2 ^ (53 : Nat) * (den * 2 ^ x.scale) := Nat.mul_le_mul_right _ x.significand_lt
  rw [Nat.succ_mul] at hsignificand
  have hlog := log2_div_sub_eq hden (by omega) hscale
  simp only [nearestMagnitude, hlog]
  rw [roundHalfEven_of_near hstep hlow hhigh htie, ← x.magnitude_eq]

/-- Just below a power of two the scale is one less, and the magnitude the same. -/
theorem nearestMagnitude_of_near_below (x : Number) {num den : Nat} (hden : 0 < den)
    (hscale : 0 < x.scale) (hsignificand : x.significand = 2 ^ (52 : Nat))
    (hlow : 4 * (2 ^ (52 : Nat) * (den * 2 ^ x.scale)) ≤ 4 * num + den * 2 ^ x.scale)
    (hhigh : num < 2 ^ (52 : Nat) * (den * 2 ^ x.scale)) :
    nearestMagnitude num den = x.magnitude := by
  obtain ⟨scale, hscale⟩ := Nat.exists_eq_add_of_lt hscale
  rw [Nat.zero_add] at hscale
  have hstep : 0 < den * 2 ^ scale := Nat.mul_pos hden (Nat.two_pow_pos _)
  have hdouble : den * 2 ^ x.scale = 2 * (den * 2 ^ scale) := by
    rw [hscale, Nat.pow_succ, Nat.mul_comm (2 ^ scale), Nat.mul_left_comm]
  rw [hdouble] at hlow hhigh
  have hlog : (num / den).log2 - 52 = scale :=
    log2_div_sub_eq hden (by omega) (Or.inr (by omega))
  simp only [nearestMagnitude, hlog]
  rw [roundHalfEven_of_near (m := 2 ^ (53 : Nat)) hstep (by omega) (by omega) (Or.inl (by decide)),
    x.magnitude_eq, hscale, hsignificand]
  omega

/-! ## Ratios in the cell of a number -/

/-- A ratio in the cell of a number, in units, is rounded to the magnitude of it. -/
theorem nearestMagnitude_of_cell (x : Number) {num den : Nat} (hden : 0 < den)
    (hlow : x.cell.low * den ≤ 4 * num) (hhigh : 4 * num ≤ x.cell.high * den)
    (htie : x.cell.closed ∨ x.cell.low * den < 4 * num ∧ 4 * num < x.cell.high * den) :
    nearestMagnitude num den = x.magnitude := by
  have hcentre : 4 * x.units * den = 4 * (x.significand * (den * 2 ^ x.scale)) := by
    rw [units]
    ac_rfl
  have hgap : 2 ^ x.scale * den = den * 2 ^ x.scale := Nat.mul_comm _ _
  have hhighEq : x.cell.high * den =
      4 * (x.significand * (den * 2 ^ x.scale)) + 2 * (den * 2 ^ x.scale) := by
    show (4 * x.units + 2 * 2 ^ x.scale) * den = _
    rw [Nat.add_mul, hcentre, Nat.mul_assoc, hgap]
  have hclosed : x.cell.closed ↔ x.significand % 2 = 0 := beq_iff_eq
  by_cases hpower : x.significand = 2 ^ (52 : Nat) ∧ 0 < x.scale
  · have hlowEq : x.cell.low * den =
        4 * (x.significand * (den * 2 ^ x.scale)) - den * 2 ^ x.scale := by
      show (4 * x.units - if _ then _ else _) * den = _
      rw [if_pos hpower, Nat.sub_mul, hcentre, hgap]
    rw [hlowEq] at hlow htie
    rw [hhighEq] at hhigh htie
    obtain ⟨hsignificand, hscale⟩ := hpower
    rcases Nat.lt_or_ge num (2 ^ (52 : Nat) * (den * 2 ^ x.scale)) with hbelow | habove
    · exact x.nearestMagnitude_of_near_below hden hscale hsignificand
        (by rw [hsignificand] at hlow; omega) hbelow
    · exact x.nearestMagnitude_of_near hden (Or.inr habove) (by omega) (by omega)
        (Or.inl (by rw [hsignificand]))
  · have hlowEq : x.cell.low * den =
        4 * (x.significand * (den * 2 ^ x.scale)) - 2 * (den * 2 ^ x.scale) := by
      show (4 * x.units - if _ then _ else _) * den = _
      rw [if_neg hpower, Nat.sub_mul, hcentre, Nat.mul_assoc, hgap]
    rw [hlowEq] at hlow htie
    rw [hhighEq] at hhigh htie
    rw [hclosed] at htie
    have hscale : x.scale = 0 ∨ 2 ^ (52 : Nat) * (den * 2 ^ x.scale) ≤ num := by
      rcases Nat.eq_zero_or_pos x.scale with hzero | hpos
      · exact Or.inl hzero
      · have hleast := le_significand_of_scale_pos hpos
        have hmore : 2 ^ (52 : Nat) + 1 ≤ x.significand := by
          have hne : x.significand ≠ 2 ^ (52 : Nat) := fun h => hpower ⟨h, hpos⟩
          omega
        have := Nat.mul_le_mul_right (den * 2 ^ x.scale) hmore
        rw [Nat.succ_mul] at this
        exact Or.inr (by omega)
    exact x.nearestMagnitude_of_near hden hscale (by omega) (by omega)
      (htie.imp_right fun h => ⟨by omega, by omega⟩)

end Number

/-- Zeros at the end of the digits make no difference to where a decimal is. -/
theorem Cell.contains_with_zeros (cell : Cell) (digits exponent : Nat) :
    cell.contains ⟨digits * 10 ^ (exponent + 1), -1⟩ = cell.contains ⟨digits, exponent⟩ := by
  have hvalue : digits * 10 ^ (exponent + 1) * quartersPerOne =
      digits * (quartersPerOne * 10 ^ exponent) * 10 := by
    rw [Nat.pow_succ]
    ac_rfl
  have hexponent : (exponent : Int).toNat = exponent := by omega
  have hplace : (-(-1 : Int)).toNat = 1 := by decide
  have hwhole : (-(exponent : Int)).toNat = 0 := by omega
  have hless : (-1 : Int).toNat = 0 := by decide
  simp only [contains, hexponent, hplace, hwhole, hless, hvalue, Nat.pow_zero, Nat.pow_one,
    Nat.mul_one, Nat.mul_le_mul_right_iff (show 0 < 10 by decide),
    Nat.mul_lt_mul_right (show 0 < 10 by decide)]

namespace Number

/-! ## Decimals in the cell of a number -/

variable {x : Number} {d : Decimal}

theorem quartersPerOne_eq : quartersPerOne = 4 * unitsPerOne := rfl

/-- A decimal in a cell is between its ends, which may be met if they belong to it. -/
theorem bounds_of_contains (h : x.cell.contains d) :
    let num := d.digits * 10 ^ d.exponent.toNat * unitsPerOne
    let den := 10 ^ (-d.exponent).toNat
    x.cell.low * den ≤ 4 * num ∧ 4 * num ≤ x.cell.high * den ∧
      (x.cell.closed ∨ x.cell.low * den < 4 * num ∧ 4 * num < x.cell.high * den) := by
  intro num den
  have hvalue : d.digits * (quartersPerOne * 10 ^ d.exponent.toNat) = 4 * num := by
    show _ = 4 * (d.digits * 10 ^ d.exponent.toNat * unitsPerOne)
    rw [quartersPerOne_eq]
    ac_rfl
  unfold Cell.contains at h
  simp only [hvalue] at h
  split at h
  · rename_i hclosed
    obtain ⟨hlow, hhigh⟩ := of_decide_eq_true h
    exact ⟨hlow, hhigh, Or.inl hclosed⟩
  · obtain ⟨hlow, hhigh⟩ := of_decide_eq_true h
    exact ⟨Nat.le_of_lt hlow, Nat.le_of_lt hhigh, Or.inr ⟨hlow, hhigh⟩⟩

/-- A decimal in the cell of a finite number rounds to it. -/
theorem ofRatio_of_contains (hx : x.isFinite) (h : x.cell.contains d) :
    ofRatio x.isNegative (d.digits * 10 ^ d.exponent.toNat) (10 ^ (-d.exponent).toNat) = x := by
  obtain ⟨hlow, hhigh, htie⟩ := bounds_of_contains h
  have hden : 0 < 10 ^ (-d.exponent).toNat := Nat.pow_pos (by decide)
  have hmagnitude : x.magnitude ≤ infinityMagnitude :=
    Nat.le_of_lt (by simpa [isFinite] using hx)
  rw [ofRatio, ofUnits, x.nearestMagnitude_of_cell hden hlow hhigh htie,
    Nat.min_eq_left hmagnitude]
  exact ext_magnitude (isNegative_ofMagnitude _ x.magnitude_lt)
    (magnitude_ofMagnitude _ x.magnitude_lt)

theorem scale_le_of_isFinite (h : x.isFinite) : x.scale ≤ 2045 := by
  have hmagnitude : x.magnitude < infinityMagnitude := by simpa [isFinite] using h
  unfold infinityMagnitude at hmagnitude
  unfold scale
  omega

/-- The cell of a number that is not zero begins above zero. -/
theorem low_pos (h : x.isZero = false) : 0 < x.cell.low := by
  have hunits : x.units ≠ 0 := fun hzero => by
    rw [units_eq_zero_iff.1 hzero] at h
    cases h
  have hsignificand : 0 < x.significand :=
    Nat.pos_of_ne_zero fun hzero => hunits (by rw [units, hzero, Nat.zero_mul])
  have hgap : 2 ^ x.scale ≤ x.units := Nat.le_mul_of_pos_left _ hsignificand
  have hpos : 0 < 2 ^ x.scale := Nat.two_pow_pos _
  show 0 < 4 * x.units - _
  split <;> omega

theorem high_lt (x : Number) : x.cell.high < 2 ^ (56 + x.scale) := by
  have hsignificand : 4 * x.significand + 2 < 2 ^ (56 : Nat) := by
    have := x.significand_lt
    omega
  calc x.cell.high = (4 * x.significand + 2) * 2 ^ x.scale := by
        show 4 * (x.significand * 2 ^ x.scale) + 2 * 2 ^ x.scale = _
        rw [Nat.add_mul, Nat.mul_assoc]
    _ < 2 ^ (56 : Nat) * 2 ^ x.scale :=
        Nat.mul_lt_mul_of_pos_right hsignificand (Nat.two_pow_pos _)
    _ = 2 ^ (56 + x.scale) := (Nat.pow_add _ _ _).symm

theorem two_pow_le_ten_pow (n : Nat) : 2 ^ (3 * n) ≤ 10 ^ n := by
  rw [Nat.pow_mul]
  exact Nat.pow_le_pow_left (by decide) n

theorem quartersPerOne_eq_two_pow : quartersPerOne = 2 ^ (unitPlaces + 2) := by
  rw [quartersPerOne, Nat.pow_succ, Nat.pow_succ, Nat.mul_assoc, Nat.mul_comm]

/-- No decimal in the cell of a finite number is so large that it is not looked at. -/
theorem exponent_le_of_contains (hx : x.isFinite) (hdigits : d.digits ≠ 0)
    (h : x.cell.contains d) : d.exponent ≤ 400 := by
  obtain ⟨-, hhigh, -⟩ := bounds_of_contains h
  refine Int.not_lt.1 fun hlarge => ?_
  have hnat : (-d.exponent).toNat = 0 := by omega
  have hplaces : unitPlaces = 1074 := by rw [unitPlaces]
  have hscale := scale_le_of_isFinite hx
  have hone : 1 ≤ d.digits := Nat.pos_of_ne_zero hdigits
  have hle : 2 ^ (56 + x.scale) ≤ 4 * (d.digits * 10 ^ d.exponent.toNat * unitsPerOne) :=
    calc 2 ^ (56 + x.scale) ≤ 2 ^ (3 * d.exponent.toNat + (unitPlaces + 2)) :=
          Nat.pow_le_pow_right (by decide) (by omega)
      _ = 2 ^ (3 * d.exponent.toNat) * quartersPerOne := by
          rw [Nat.pow_add, quartersPerOne_eq_two_pow]
      _ ≤ d.digits * 10 ^ d.exponent.toNat * quartersPerOne :=
          Nat.mul_le_mul_right _ (Nat.le_trans (two_pow_le_ten_pow _)
            (Nat.le_mul_of_pos_left _ hone))
      _ = 4 * (d.digits * 10 ^ d.exponent.toNat * unitsPerOne) := by
          rw [quartersPerOne_eq, Nat.mul_left_comm]
  rw [hnat, Nat.pow_zero, Nat.mul_one] at hhigh
  exact absurd (Nat.le_trans hle hhigh) (Nat.not_le.2 x.high_lt)

/-- No decimal in the cell of a number that is not zero is so small that it is not looked at. -/
theorem le_exponent_of_contains (hx : x.isZero = false) (h : x.cell.contains d) :
    -(400 + d.digits.log2 : Nat) ≤ d.exponent := by
  obtain ⟨hlow, -, -⟩ := bounds_of_contains h
  refine Int.not_lt.1 fun hsmall => ?_
  have hnat : d.exponent.toNat = 0 := by omega
  have hplaces : unitPlaces = 1074 := by rw [unitPlaces]
  have hlt : 4 * (d.digits * 10 ^ d.exponent.toNat * unitsPerOne) < 10 ^ (-d.exponent).toNat :=
    calc 4 * (d.digits * 10 ^ d.exponent.toNat * unitsPerOne) = d.digits * quartersPerOne := by
          rw [hnat, Nat.pow_zero, Nat.mul_one, quartersPerOne_eq, Nat.mul_left_comm]
      _ < 2 ^ (d.digits.log2 + 1) * quartersPerOne :=
          Nat.mul_lt_mul_of_pos_right Nat.lt_log2_self
            (quartersPerOne_eq_two_pow ▸ Nat.two_pow_pos _)
      _ = 2 ^ (d.digits.log2 + 1 + (unitPlaces + 2)) := by
          rw [quartersPerOne_eq_two_pow, ← Nat.pow_add]
      _ ≤ 2 ^ (3 * (-d.exponent).toNat) := Nat.pow_le_pow_right (by decide) (by omega)
      _ ≤ 10 ^ (-d.exponent).toNat := two_pow_le_ten_pow _
  have hle : 10 ^ (-d.exponent).toNat ≤ x.cell.low * 10 ^ (-d.exponent).toNat :=
    Nat.le_mul_of_pos_left _ (low_pos hx)
  exact absurd (Nat.le_trans hle hlow) (Nat.not_le.2 hlt)

theorem digits_ne_zero_of_contains (hx : x.isZero = false) (h : x.cell.contains d) :
    d.digits ≠ 0 := by
  obtain ⟨hlow, -, -⟩ := bounds_of_contains h
  intro hzero
  have hpos : 0 < x.cell.low * 10 ^ (-d.exponent).toNat :=
    Nat.mul_pos (low_pos hx) (Nat.pow_pos (by decide))
  rw [hzero, Nat.zero_mul, Nat.zero_mul] at hlow
  omega

/-- A decimal in the cell of a finite number that is not zero is read as that number. -/
theorem ofDecimal_of_contains (hx : x.isFinite) (hzero : x.isZero = false)
    (h : x.cell.contains d) : ofDecimal x.isNegative d.digits d.exponent = x := by
  have hdigits := digits_ne_zero_of_contains hzero h
  have hlarge := exponent_le_of_contains hx hdigits h
  have hsmall := le_exponent_of_contains hzero h
  rw [ofDecimal, if_neg hdigits, if_neg (by omega), if_neg (by omega)]
  exact ofRatio_of_contains hx h

end Number

end CallGuard
