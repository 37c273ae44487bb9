/-!
# English ordinals

`ordinal n` is `n` with the ending that English gives it : `0th`, `1st`,
`2nd`, `3rd`, `4th`. Numbers that end in 11, 12 or 13 take `th`
(`11th`, `112th`), although `21st` and `122nd` do not.
-/

namespace CallGuard

/-- The ending of an ordinal. -/
def ordinalEnding (n : Nat) : String :=
  if 11 ≤ n % 100 ∧ n % 100 ≤ 13 then "th"
  else if n % 10 = 1 then "st"
  else if n % 10 = 2 then "nd"
  else if n % 10 = 3 then "rd"
  else "th"

/-- A number as an English ordinal. -/
def ordinal (n : Nat) : String := n.repr ++ ordinalEnding n

example : [0, 1, 2, 3, 11, 12, 13, 21, 111, 122].map ordinal =
    ["0th", "1st", "2nd", "3rd", "11th", "12th", "13th", "21st", "111th", "122nd"] := by decide

end CallGuard
