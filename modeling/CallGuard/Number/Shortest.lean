import CallGuard.Number.Rounding

/-!
# Shortest decimals

The decimals that round to one positive finite number fill an interval, its
`Cell`, whose ends belong to it when the significand is even. `shortest` finds
the decimal with the fewest digits in the cell, and among those the nearest.

It tries the grids of multiples of `10 ^ e`, a coarse one first. If a grid has
a point in the cell then so is one of the number's two neighbours on the grid,
and the first grid with a hit gives the fewest digits. Where both neighbours
are in the cell the nearer one is taken; at equal distance the `Tie` rule
decides. After the last grid the number itself is taken, as a multiple of
`10 ^ (-unitPlaces)`, so the answer is in the cell whatever grid was first :
`contains_cell_shortest`.

Everything is compared in natural numbers, in quarters of a unit.
-/

namespace CallGuard

/-- A decimal, `digits * 10 ^ exponent`. -/
structure Decimal where
  /-- The digits, read as a whole number. -/
  digits : Nat
  /-- The power of ten. -/
  exponent : Int
  deriving DecidableEq

/-- Which of two equally near neighbours is taken. -/
inductive Tie
  /-- The larger one. -/
  | up
  /-- The one whose last digit is even. -/
  | even
  deriving DecidableEq

/-- How many quarters of a unit make one. -/
def quartersPerOne : Nat := 4 * 2 ^ Number.unitPlaces

/-- An interval around a number, in quarters of a unit. -/
structure Cell where
  /-- The lower end. -/
  low : Nat
  /-- The number itself. -/
  centre : Nat
  /-- The upper end. -/
  high : Nat
  /-- Whether the ends belong to it. -/
  closed : Bool
  deriving DecidableEq

namespace Cell

/-- Whether the decimal `digits * 10 ^ exponent` is in the cell. -/
def contains (cell : Cell) (d : Decimal) : Bool :=
  let value := d.digits * (quartersPerOne * 10 ^ d.exponent.toNat)
  let low := cell.low * 10 ^ (-d.exponent).toNat
  let high := cell.high * 10 ^ (-d.exponent).toNat
  if cell.closed then decide (low ≤ value ∧ value ≤ high) else decide (low < value ∧ value < high)

/-- The multiple of `10 ^ exponent` in the cell that is nearest to its centre, if there is one. -/
def nearest? (tie : Tie) (cell : Cell) (exponent : Int) : Option Decimal :=
  let step := quartersPerOne * 10 ^ exponent.toNat
  let target := cell.centre * 10 ^ (-exponent).toNat
  let below : Decimal := ⟨target / step, exponent⟩
  let above : Decimal := ⟨target / step + 1, exponent⟩
  match cell.contains below, cell.contains above with
  | false, false => none
  | true, false => some below
  | false, true => some above
  | true, true =>
    if 2 * (target % step) < step then some below
    else if step < 2 * (target % step) then some above
    else match tie with
      | .up => some above
      | .even => some (if below.digits % 2 = 0 then below else above)

/-- The centre of a cell around a whole number of units : `5 ^ n * 10 ^ (-n)` is `2 ^ (-n)`. -/
def exact (cell : Cell) : Decimal :=
  ⟨cell.centre / 4 * 5 ^ Number.unitPlaces, -(Number.unitPlaces : Int)⟩

/-- The first hit on a number of grids, each ten times finer than the one before,
and the centre if there is none. -/
def firstHit (tie : Tie) (cell : Cell) : (grids : Nat) → (exponent : Int) → Decimal
  | 0, _ => cell.exact
  | grids + 1, exponent =>
    (cell.nearest? tie exponent).getD (cell.firstHit tie grids (exponent - 1))

end Cell

namespace Number

/-- The reals that round to the size of a finite number that is not zero. Below a power of
two the neighbouring number is only half as far away. -/
def cell (x : Number) : Cell :=
  let centre := 4 * x.units
  let gap := 2 ^ x.scale
  { low := centre - if x.significand = 2 ^ (52 : Nat) ∧ 0 < x.scale then gap else 2 * gap
    centre := centre
    high := centre + 2 * gap
    closed := x.significand % 2 == 0 }

/-- A power of ten above the size of a finite number : `30103 / 100000` is the logarithm of two. -/
def decimalCeiling (x : Number) : Int := ((x.units.log2 : Int) - 1073) * 30103 / 100000 + 2

/-- The shortest decimal that rounds to the size of a finite number that is not zero, and
the nearest of those. From the ceiling down, 24 grids take in the one with 17 digits. -/
def shortest (tie : Tie) (x : Number) : Decimal := x.cell.firstHit tie 24 x.decimalCeiling

end Number

/-! ## Laws -/

namespace Cell

theorem contains_of_nearest? {tie : Tie} {cell : Cell} {e : Int} {d : Decimal}
    (h : cell.nearest? tie e = some d) : cell.contains d := by
  unfold nearest? at h
  dsimp only at h
  repeat' split at h
  all_goals first
    | simp only [reduceCtorEq] at h
    | (simp only [Option.some.injEq] at h; subst h; assumption)

/-- Whatever grids are tried, the answer is in the cell, if the number itself is. -/
theorem contains_firstHit {tie : Tie} {cell : Cell} (h : cell.contains cell.exact) (grids : Nat)
    (e : Int) : cell.contains (cell.firstHit tie grids e) := by
  induction grids generalizing e with
  | zero => exact h
  | succ n ih =>
    unfold firstHit
    cases hn : cell.nearest? tie e with
    | none => exact ih (e - 1)
    | some d => exact contains_of_nearest? hn

end Cell

namespace Number

/-- The number itself is in its cell. -/
theorem contains_cell_exact {x : Number} (h : x.isZero = false) : x.cell.contains x.cell.exact := by
  have hs : 0 < x.significand := by
    rcases Nat.eq_zero_or_pos x.scale with h0 | h0
    · have hm := x.magnitude_eq
      have : x.magnitude ≠ 0 := by simpa [isZero] using h
      omega
    · have := le_significand_of_scale_pos h0
      omega
  have hg : 0 < 2 ^ x.scale := Nat.two_pow_pos _
  have hc : 2 ^ x.scale ≤ x.units := Nat.le_mul_of_pos_left _ hs
  have hlow : x.cell.low < x.cell.centre := by
    show 4 * x.units - _ < 4 * x.units
    split <;> omega
  have hhigh : x.cell.centre < x.cell.high := by
    show 4 * x.units < 4 * x.units + _
    omega
  have hten : 10 ^ unitPlaces = 2 ^ unitPlaces * 5 ^ unitPlaces := by rw [← Nat.mul_pow]
  have key : x.cell.centre / 4 * 5 ^ unitPlaces * (4 * 2 ^ unitPlaces * 10 ^ (0 : Nat)) =
      x.cell.centre * 10 ^ unitPlaces := by
    show 4 * x.units / 4 * _ * _ = 4 * x.units * _
    rw [Nat.mul_div_cancel_left _ (by decide), hten, Nat.pow_zero, Nat.mul_one]
    ac_rfl
  have hp : 0 < 10 ^ unitPlaces := Nat.pow_pos (by decide)
  have h1 := Nat.mul_lt_mul_of_pos_right hlow hp
  have h2 := Nat.mul_lt_mul_of_pos_right hhigh hp
  have e1 : (-(unitPlaces : Int)).toNat = 0 := by omega
  have e2 : (- -(unitPlaces : Int)).toNat = unitPlaces := by omega
  unfold Cell.contains Cell.exact quartersPerOne
  dsimp only
  rw [e1, e2, key]
  split
  · exact decide_eq_true ⟨Nat.le_of_lt h1, Nat.le_of_lt h2⟩
  · exact decide_eq_true ⟨h1, h2⟩

/-- The shortest decimal of a number is in its cell. -/
theorem contains_cell_shortest (tie : Tie) {x : Number} (h : x.isZero = false) :
    x.cell.contains (x.shortest tie) :=
  Cell.contains_firstHit (contains_cell_exact h) _ _

end Number

end CallGuard
