/-!
# Blanks

The characters with the Unicode property `White_Space`, removing them from
both ends of a text, and folding the case of ASCII letters.

`trimChars_eq_self_iff` says which texts have nothing to remove.
-/

namespace CallGuard

/-- The first and last code points of the runs of characters with the Unicode
property `White_Space`. -/
def blankRuns : List (Nat × Nat) :=
  [(0x9, 0xd), (0x20, 0x20), (0x85, 0x85), (0xa0, 0xa0), (0x1680, 0x1680), (0x2000, 0x200a),
    (0x2028, 0x2029), (0x202f, 0x202f), (0x205f, 0x205f), (0x3000, 0x3000)]

/-- Whether a character has the Unicode property `White_Space`. -/
def isBlank (c : Char) : Bool := blankRuns.any fun run => run.1 ≤ c.toNat && c.toNat ≤ run.2

/-- Removes the blanks at both ends. -/
def trimChars (s : List Char) : List Char :=
  ((s.dropWhile isBlank).reverse.dropWhile isBlank).reverse

/-- Makes ASCII capitals small and leaves every other character alone. -/
def lowerAscii (c : Char) : Char := if 'A' ≤ c ∧ c ≤ 'Z' then .ofNat (c.toNat + 32) else c

/-- The 25 blanks are 10 runs. -/
example : (blankRuns.map fun run => run.2 + 1 - run.1).sum = 25 := rfl

theorem dropWhile_isBlank_eq_self_iff (s : List Char) :
    s.dropWhile isBlank = s ↔ ∀ c ∈ s.head?, isBlank c = false := by
  cases s with
  | nil => simp
  | cons c s =>
    have hle := (List.dropWhile_sublist isBlank (l := s)).length_le
    have hne : s.dropWhile isBlank ≠ c :: s := fun h => by
      rw [h, List.length_cons] at hle
      omega
    cases hc : isBlank c <;> simp [hc, hne]

/-- A text has nothing to remove if and only if it neither starts nor ends with a blank. -/
theorem trimChars_eq_self_iff (s : List Char) :
    trimChars s = s ↔ (∀ c ∈ s.head?, isBlank c = false) ∧ ∀ c ∈ s.getLast?, isBlank c = false := by
  rw [← List.head?_reverse, ← dropWhile_isBlank_eq_self_iff, ← dropWhile_isBlank_eq_self_iff]
  constructor
  · intro h
    -- Nothing is removed in the end, so that nothing is removed on the way.
    have hstart : s.dropWhile isBlank = s := by
      have hend : (trimChars s).length ≤ (s.dropWhile isBlank).length := by
        have hle := (List.dropWhile_sublist isBlank (l := (s.dropWhile isBlank).reverse)).length_le
        simpa [trimChars] using hle
      rw [h] at hend
      exact (List.dropWhile_sublist isBlank).eq_of_length_le hend
    rw [trimChars, hstart] at h
    exact ⟨hstart, List.reverse_eq_iff.1 h⟩
  · rintro ⟨hstart, hend⟩
    rw [trimChars, hstart, hend, List.reverse_reverse]

end CallGuard
