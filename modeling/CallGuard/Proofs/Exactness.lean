import CallGuard.Proofs.Conversion
import CallGuard.Proofs.Reflexivity
import Mathlib.Algebra.Order.Field.Rat
import Mathlib.Tactic.Linarith
import Mathlib.Tactic.Positivity

/-!
# Exact integers

An integer of at most `2 ^ 53` in size is a number as it is (`Number.toInt?_ofInt`) : shifted to 53
binary places it is a significand, and the number nearest to it has its units. So such integers stay
apart as values, and a list of allowed integers allows exactly these.

`Number.value` is what a finite number is as a rational number, and `Number.toWord` what becomes of
it as a word of 64 bits with sign : rounded towards zero, and brought into range. A number is
written as a JSON integer if and only if it is one of less than `2 ^ 53` in size, and then the word
is that integer itself (`Number.toJson_of_value`).
-/

namespace CallGuard

namespace Number

variable {x y : Number}

/-! ## Integers that have the places of a significand -/

/-- A scale and a significand make a number of that many units. -/
theorem units_ofMagnitude (negative : Bool) {scale m : Nat} (hm : m < 2 ^ (53 : Nat))
    (hscale : scale = 0 ∨ 2 ^ (52 : Nat) ≤ m) (hfinite : scale ≤ 2045) :
    (ofMagnitude negative (scale * 2 ^ (52 : Nat) + m)).units = m * 2 ^ scale := by
  have hlt : scale * 2 ^ (52 : Nat) + m < 2 ^ (63 : Nat) := by omega
  have hscale' : (ofMagnitude negative (scale * 2 ^ (52 : Nat) + m)).scale = scale := by
    rw [Number.scale, magnitude_ofMagnitude _ hlt]
    omega
  have hsignificand : (ofMagnitude negative (scale * 2 ^ (52 : Nat) + m)).significand = m := by
    rw [significand, magnitude_ofMagnitude _ hlt, hscale']
    omega
  rw [units, hsignificand, hscale']

/-- An integer that is not zero, shifted to the places of a significand. -/
theorem exists_significand {a : Nat} (hpos : 0 < a) (h : a ≤ 2 ^ (53 : Nat)) :
    ∃ m scale, a * unitsPerOne = m * 2 ^ scale ∧ m < 2 ^ (53 : Nat) ∧ 2 ^ (52 : Nat) ≤ m ∧
      scale ≤ 2045 := by
  have hplaces : unitPlaces = 1074 := by rw [unitPlaces]
  rw [unitsPerOne]
  rcases Nat.eq_or_lt_of_le h with rfl | hlt
  · refine ⟨2 ^ (52 : Nat), unitPlaces + 1, ?_, by decide, Nat.le_refl _, by omega⟩
    rw [← Nat.pow_add, ← Nat.pow_add]
    congr 1
    omega
  · have hlow := Nat.log2_self_le (Nat.pos_iff_ne_zero.1 hpos)
    have hhigh := Nat.lt_log2_self (n := a)
    have hlog : a.log2 ≤ 52 := by
      have := (Nat.log2_lt (Nat.pos_iff_ne_zero.1 hpos)).2 hlt
      omega
    refine ⟨a * 2 ^ (52 - a.log2), unitPlaces - (52 - a.log2), ?_, ?_, ?_, by omega⟩
    · rw [Nat.mul_assoc, ← Nat.pow_add]
      congr 2
      omega
    · calc a * 2 ^ (52 - a.log2)
          < 2 ^ (a.log2 + 1) * 2 ^ (52 - a.log2) :=
            Nat.mul_lt_mul_of_pos_right hhigh (Nat.two_pow_pos _)
        _ = 2 ^ (53 : Nat) := by
            rw [← Nat.pow_add]
            congr 1
            omega
    · calc 2 ^ (52 : Nat) = 2 ^ a.log2 * 2 ^ (52 - a.log2) := by
            rw [← Nat.pow_add]
            congr 1
            omega
        _ ≤ a * 2 ^ (52 - a.log2) := Nat.mul_le_mul_right _ hlow

/-- The number nearest to a small integer has its units. -/
theorem units_ofInt {n : Int} (h : n.natAbs ≤ 2 ^ (53 : Nat)) :
    (ofInt n).units = n.natAbs * unitsPerOne := by
  rcases Nat.eq_zero_or_pos n.natAbs with hzero | hpos
  · rw [ofInt, ofRatio, hzero, Nat.zero_mul]
    exact units_eq_zero_iff.2 (by cases decide (n < 0) <;> decide +kernel)
  · obtain ⟨m, scale, hunits, hm, hm', hscale⟩ := exists_significand hpos h
    have hmagnitude : nearestMagnitude (n.natAbs * unitsPerOne) 1 =
        scale * 2 ^ (52 : Nat) + m := by
      rw [hunits, nearestMagnitude_of_log2 hm (Or.inr hm')]
    have hfinite : scale * 2 ^ (52 : Nat) + m ≤ infinityMagnitude := by
      unfold infinityMagnitude
      omega
    rw [ofInt, ofRatio, ofUnits, hmagnitude, Nat.min_eq_left hfinite,
      units_ofMagnitude _ hm (Or.inr hm') hscale, hunits]

theorem isNegative_ofInt (n : Int) : (ofInt n).isNegative = decide (n < 0) := by
  have hinfinity : infinityMagnitude < 2 ^ (63 : Nat) := by decide
  exact isNegative_ofMagnitude _ (Nat.lt_of_le_of_lt (Nat.min_le_right _ _) hinfinity)

theorem isFinite_ofInt_of_le {n : Int} (h : n.natAbs ≤ 2 ^ (53 : Nat)) : (ofInt n).isFinite :=
  isFinite_ofInt (Nat.le_trans h (by decide))

theorem unitsPerOne_pos : 0 < unitsPerOne := Nat.two_pow_pos _

/-- A small integer is the number nearest to it. -/
theorem toInt?_ofInt {n : Int} (h : n.natAbs ≤ 2 ^ (53 : Nat)) : (ofInt n).toInt? = some n := by
  have hmod : (ofInt n).units % unitsPerOne = 0 := by rw [units_ofInt h, Nat.mul_mod_left]
  have hdiv : (ofInt n).units / unitsPerOne = n.natAbs := by
    rw [units_ofInt h, Nat.mul_div_cancel _ unitsPerOne_pos]
  rw [toInt?, if_pos ⟨isFinite_ofInt_of_le h, hmod⟩, hdiv, isNegative_ofInt]
  congr 1
  by_cases hn : n < 0
  · rw [if_pos (decide_eq_true hn)]
    omega
  · rw [if_neg (by simpa using hn)]
    omega

theorem toInt?_eq_of_numEq (h : x.numEq y) : x.toInt? = y.toInt? := by
  simp only [numEq, Bool.and_eq_true, Bool.or_eq_true, decide_eq_true_eq] at h
  rcases h.2 with rfl | ⟨hx, hy⟩
  · rfl
  · rw [toInt?_of_isZero hx, toInt?_of_isZero hy]

theorem numEq_ofInt_iff {a b : Int} (ha : a.natAbs ≤ 2 ^ (53 : Nat))
    (hb : b.natAbs ≤ 2 ^ (53 : Nat)) : (ofInt a).numEq (ofInt b) ↔ a = b := by
  constructor
  · intro h
    have hint := toInt?_eq_of_numEq h
    rw [toInt?_ofInt ha, toInt?_ofInt hb] at hint
    exact Option.some.inj hint
  · rintro rfl
    rw [numEq_self, isNaN_of_isFinite (isFinite_ofInt_of_le ha)]
    rfl

/-! ## The value of a number -/

/-- The rational number that a finite number is. -/
def value (x : Number) : ℚ :=
  if x.isNegative then -(x.units / unitsPerOne : ℚ) else x.units / unitsPerOne

/-- A finite number rounded towards zero. -/
def truncated (x : Number) : Int :=
  if x.isNegative then -(x.units / unitsPerOne : Nat) else (x.units / unitsPerOne : Nat)

/-- What becomes of a number as a word of 64 bits with sign : it is rounded towards zero, and the
nearest word is taken if that is out of range. NaN becomes zero. -/
def toWord (x : Number) : Int :=
  if x.isNaN then 0
  else if x.isInfinite then
    if x.isNegative then -2 ^ (63 : Nat) else 2 ^ (63 : Nat) - 1
  else max (-2 ^ (63 : Nat)) (min x.truncated (2 ^ (63 : Nat) - 1))

theorem units_div_eq_iff (size : Nat) :
    (x.units / unitsPerOne : ℚ) = size ↔ x.units = size * unitsPerOne := by
  have hne : (unitsPerOne : ℚ) ≠ 0 := Nat.cast_ne_zero.2 (Nat.ne_of_gt unitsPerOne_pos)
  rw [div_eq_iff hne]
  exact_mod_cast Iff.rfl

/-- An integer is the value of a number if it has the units and the sign of it. -/
theorem value_eq_iff (n : Int) :
    x.value = n ↔ x.units = n.natAbs * unitsPerOne ∧ if x.isNegative then n ≤ 0 else 0 ≤ n := by
  have hnonneg : (0 : ℚ) ≤ x.units / unitsPerOne := by positivity
  rw [← units_div_eq_iff, value]
  split
  · constructor
    · intro h
      have hn : n ≤ 0 := by exact_mod_cast (show (n : ℚ) ≤ 0 by linarith)
      have habs : (n.natAbs : ℚ) = -n := by
        rw [← Int.cast_natCast n.natAbs, Int.ofNat_natAbs_of_nonpos hn, Int.cast_neg]
      exact ⟨by rw [habs]; linarith, hn⟩
    · rintro ⟨h, hn⟩
      rw [h, ← Int.cast_natCast, Int.ofNat_natAbs_of_nonpos hn, Int.cast_neg, neg_neg]
  · constructor
    · intro h
      have hn : 0 ≤ n := by exact_mod_cast (show (0 : ℚ) ≤ n by linarith)
      exact ⟨by rw [h, ← Int.cast_natCast, Int.natAbs_of_nonneg hn], hn⟩
    · rintro ⟨h, hn⟩
      rw [h, ← Int.cast_natCast, Int.natAbs_of_nonneg hn]

theorem ite_neg_eq_iff (negative : Bool) (size : Nat) (n : Int) :
    (if negative then -(size : Int) else size) = n ↔
      size = n.natAbs ∧ if negative then n ≤ 0 else 0 ≤ n := by
  cases negative
  · simp only [Bool.false_eq_true, if_false]
    omega
  · simp only [if_true]
    omega

/-- A finite number is an integer if and only if its value is one. -/
theorem toInt?_eq_some_iff (h : x.isFinite) (n : Int) : x.toInt? = some n ↔ x.value = n := by
  rw [value_eq_iff, toInt?]
  constructor
  · intro hint
    split at hint
    · rename_i hwhole
      obtain ⟨hsize, hsign⟩ := (ite_neg_eq_iff _ _ _).1 (Option.some.inj hint)
      exact ⟨hsize ▸ (Nat.div_mul_cancel (Nat.dvd_of_mod_eq_zero hwhole.2)).symm, hsign⟩
    · cases hint
  · rintro ⟨hunits, hsign⟩
    have hmod : x.units % unitsPerOne = 0 := by rw [hunits, Nat.mul_mod_left]
    have hdiv : x.units / unitsPerOne = n.natAbs := by
      rw [hunits, Nat.mul_div_cancel _ unitsPerOne_pos]
    rw [if_pos ⟨h, hmod⟩, (ite_neg_eq_iff _ _ _).2 ⟨hdiv, hsign⟩]

theorem value_ofInt {n : Int} (h : n.natAbs ≤ 2 ^ (53 : Nat)) : (ofInt n).value = n :=
  (toInt?_eq_some_iff (isFinite_ofInt_of_le h) n).1 (toInt?_ofInt h)

theorem value_zero (negative : Bool) : (zero negative).value = 0 := by
  have hzero : (zero negative).isZero := by cases negative <;> decide
  have hint := toInt?_of_isZero hzero
  exact_mod_cast (toInt?_eq_some_iff (isFinite_of_isZero hzero) 0).1 hint

theorem truncated_of_value {n : Int} (h : x.value = n) : x.truncated = n := by
  obtain ⟨hunits, hsign⟩ := (value_eq_iff n).1 h
  have hdiv : x.units / unitsPerOne = n.natAbs := by
    rw [hunits, Nat.mul_div_cancel _ unitsPerOne_pos]
  exact (ite_neg_eq_iff _ _ _).2 ⟨hdiv, hsign⟩

theorem isInfinite_of_isFinite (h : x.isFinite) : x.isInfinite = false := by
  simp only [isFinite, isInfinite, decide_eq_true_eq, beq_eq_false_iff_ne] at h ⊢
  omega

/-- A word holds an integer of 64 bits as it is. -/
theorem toWord_of_value (h : x.isFinite) {n : Int} (hvalue : x.value = n)
    (hsmall : n.natAbs < 2 ^ (63 : Nat)) : x.toWord = n := by
  rw [toWord, isNaN_of_isFinite h, isInfinite_of_isFinite h, truncated_of_value hvalue]
  simp only [Bool.false_eq_true, if_false]
  omega

/-! ## Numbers as JSON -/

/-- A number that is a small integer is written as that integer. -/
theorem toJson_of_value (h : x.isFinite) {n : Int} (hvalue : x.value = n)
    (hsmall : n.natAbs < 2 ^ (53 : Nat)) :
    x.toWord = n ∧ ∃ bounds, x.toJson = .number (.integer n bounds) := by
  refine ⟨toWord_of_value h hvalue (by omega), by omega, ?_⟩
  have hint := (toInt?_eq_some_iff h n).2 hvalue
  simp only [toJson, h, hint, hsmall, dif_pos]

/-- Any other finite number is written as it is. -/
theorem toJson_of_forall_value (h : x.isFinite)
    (hlarge : ∀ n : Int, x.value = n → 2 ^ (53 : Nat) ≤ n.natAbs) :
    x.toJson = .number (.real x h) := by
  rw [toJson, dif_pos h]
  cases hint : x.toInt? with
  | none => rfl
  | some n =>
    have hn := hlarge n ((toInt?_eq_some_iff h n).1 hint)
    exact dif_neg (Nat.not_lt.2 hn)

end Number

namespace Value

theorem toJson_ofInt {n : Int} (h : n.natAbs < 2 ^ (53 : Nat)) :
    ∃ bounds, (Value.ofInt n).toJson = .number (.integer n bounds) := by
  have hle := Nat.le_of_lt h
  have hjson := Number.toJson_of_value (Number.isFinite_ofInt_of_le hle) (Number.value_ofInt hle) h
  exact hjson.2

theorem strictEq_ofInt_iff {a b : Int} (ha : a.natAbs ≤ 2 ^ (53 : Nat))
    (hb : b.natAbs ≤ 2 ^ (53 : Nat)) : (Value.ofInt a).strictEq (Value.ofInt b) ↔ a = b :=
  Number.numEq_ofInt_iff ha hb

/-- A list of integers allows those that are on it. -/
theorem passes_oneOf_ofInt_iff {allowed : List Int}
    (hallowed : ∀ m ∈ allowed, m.natAbs ≤ 2 ^ (53 : Nat)) {n : Int}
    (hn : n.natAbs ≤ 2 ^ (53 : Nat)) (s : Site) :
    ((Checker.oneOf (allowed.map Value.ofInt)).check (Value.ofInt n) s).passes ↔ n ∈ allowed := by
  have hnan : (Value.ofInt n).isNaN = false :=
    Number.isNaN_of_isFinite (Number.isFinite_ofInt_of_le hn)
  rw [Checker.passes_check_oneOf_iff, Checker.isAllowed_iff]
  constructor
  · rintro (hmissing | ⟨w, hw, heq | ⟨-, hnan'⟩⟩)
    · cases hmissing
    · obtain ⟨m, hm, rfl⟩ := List.mem_map.1 hw
      exact (strictEq_ofInt_iff (hallowed m hm) hn).1 heq ▸ hm
    · rw [hnan] at hnan'
      cases hnan'
  · intro hmem
    exact Or.inr ⟨_, List.mem_map_of_mem hmem, Or.inl ((strictEq_ofInt_iff hn hn).2 rfl)⟩

/-- An integer of less than `2 ^ 53` in size is written as that JSON integer. Two integers of at
most that size are strictly equal as values if and only if they are equal, and hence a list of such
integers allows those that are on it and no others. A finite number is written as a JSON integer
exactly if it is an integer of less than `2 ^ 53` in size, both zeros as zero; as a word it is then
the same integer, neither cut nor out of range. Any other finite number is written as it is, and one
that is not finite as null. -/
theorem exact_integers :
    (∀ n : Int, n.natAbs < 2 ^ (53 : Nat) →
      ∃ bounds, (Value.ofInt n).toJson = .number (.integer n bounds)) ∧
    (∀ a b : Int, a.natAbs ≤ 2 ^ (53 : Nat) → b.natAbs ≤ 2 ^ (53 : Nat) →
      ((Value.ofInt a).strictEq (Value.ofInt b) ↔ a = b)) ∧
    (∀ (allowed : List Int) (n : Int) (s : Site), (∀ m ∈ allowed, m.natAbs ≤ 2 ^ (53 : Nat)) →
      n.natAbs ≤ 2 ^ (53 : Nat) →
      (((Checker.oneOf (allowed.map Value.ofInt)).check (Value.ofInt n) s).passes ↔
        n ∈ allowed)) ∧
    (∀ (x : Number) (n : Int), x.isFinite → x.value = n → n.natAbs < 2 ^ (53 : Nat) →
      x.truncated = n ∧ x.toWord = n ∧ ∃ bounds, x.toJson = .number (.integer n bounds)) ∧
    (∀ negative, (Number.zero negative).isFinite ∧ (Number.zero negative).value = (0 : Int)) ∧
    (∀ x : Number, x.isFinite → (∀ n : Int, x.value = n → 2 ^ (53 : Nat) ≤ n.natAbs) →
      ∃ finite, x.toJson = .number (.real x finite)) ∧
    ∀ x : Number, x.isFinite = false → x.toJson = .null := by
  refine ⟨fun n => toJson_ofInt, fun a b => strictEq_ofInt_iff,
    fun allowed n s hallowed hn => passes_oneOf_ofInt_iff hallowed hn s,
    fun x n hx hvalue hsmall => ⟨Number.truncated_of_value hvalue, ?_⟩,
    fun negative => ⟨?_, by exact_mod_cast Number.value_zero negative⟩,
    fun x hx hlarge => ⟨hx, Number.toJson_of_forall_value hx hlarge⟩,
    fun x => Number.toJson_eq_null⟩
  · exact Number.toJson_of_value hx hvalue hsmall
  · cases negative <;> decide

/-- At the edge, the last integer that is written as one, the next that is not, and a list that
tells them apart. -/
theorem exact_integers_at_the_edge :
    let edge : Int := 9007199254740991
    (∃ bounds, (Value.ofInt (-edge)).toJson = .number (.integer (-edge) bounds)) ∧
      ¬(Value.ofInt edge).strictEq (Value.ofInt (edge + 1)) ∧
      ((Checker.oneOf ([edge, -edge].map Value.ofInt)).check (Value.ofInt (-edge))
        (.argument "m" 0)).passes ∧
      (∃ finite, (Number.ofInt (edge + 1)).toJson =
        .number (.real (.ofInt (edge + 1)) finite)) ∧
      (Value.ofInt (edge + 1)).strictEq (Value.ofInt (edge + 2)) := by
  intro edge
  obtain ⟨hjson, heq, hlist, -, -, hlarge, -⟩ := exact_integers
  have hvalue : (Number.ofInt (edge + 1)).value = (edge + 1 : Int) :=
    Number.value_ofInt (by decide)
  refine ⟨hjson _ (by decide), fun h => ?_, ?_, ?_, by decide +kernel⟩
  · exact absurd ((heq edge (edge + 1) (by decide) (by decide)).1 h) (by decide)
  · exact (hlist [edge, -edge] (-edge) _ (by decide) (by decide)).2 (by simp)
  · refine hlarge _ (Number.isFinite_ofInt_of_le (by decide)) fun n hn => ?_
    rw [hvalue] at hn
    rw [← Int.cast_injective hn]
    decide

end Value

end CallGuard
