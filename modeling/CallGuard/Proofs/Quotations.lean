import CallGuard.Json.Quoted

/-!
# Quoted text is read as it was written

Whatever characters a text has, marks, backslashes and control characters among them, its
quoted form ends at the mark that was written last, and `readQuoted` gives back the text and
what follows that mark (`readQuoted_quoted`).

Each character is written as one piece, a character or a unit below U+0020 (`pieceOf`), and no
such unit is half of a pair. So the pieces are read one by one (`readPieces_quotedChar`), and
joined one by one (`joinPieces_pieceOf`).
-/

namespace CallGuard

/-- The piece that a character is written as. -/
def pieceOf (c : Char) : Piece :=
  if (escapeLetters.lookup c).isNone ∧ c.toNat < 0x20 then .unit c.toNat else .char c

/-! ## Reading a character -/

/-- Every letter is read as the character that it was written for, and none is the letter of a
unit. -/
theorem unescape?_of_mem :
    ∀ pair ∈ escapeLetters, pair.2 ≠ 'u' ∧ unescape? pair.2 = some pair.1 := by
  decide

/-- The digits of a unit below U+0020 stand for it. -/
theorem unit?_of_lt : ∀ n < 0x20,
    unit? '0' '0' (Nat.digitChar (n / 16)) (Nat.digitChar (n % 16)) = some n := by
  decide

theorem readPieces_letter {letter c : Char} (hu : letter ≠ 'u') (hc : unescape? letter = some c)
    (s : List Char) :
    readPieces ('\\' :: letter :: s) = (readPieces s).map (withPiece (.char c)) := by
  simp [readPieces, hu, hc]

theorem readPieces_plain {c : Char} (hmark : c ≠ '"') (hbackslash : c ≠ '\\')
    (hcontrol : ¬c.toNat < 0x20) (s : List Char) :
    readPieces (c :: s) = (readPieces s).map (withPiece (.char c)) := by
  simp [readPieces, hbackslash, hcontrol]

/-- A character is read as the piece that it was written as. -/
theorem readPieces_quotedChar (c : Char) (s : List Char) :
    readPieces (quotedChar c ++ s) = (readPieces s).map (withPiece (pieceOf c)) := by
  unfold quotedChar pieceOf
  cases hletter : escapeLetters.lookup c with
  | some letter =>
    have hmem : (c, letter) ∈ escapeLetters := by
      obtain ⟨before, after, heq, -⟩ := List.lookup_eq_some_iff.1 hletter
      rw [heq]
      exact List.mem_append_right _ List.mem_cons_self
    obtain ⟨hu, hc⟩ := unescape?_of_mem _ hmem
    exact readPieces_letter hu hc s
  | none =>
    have hne : c ≠ '"' ∧ c ≠ '\\' := by
      constructor <;> (rintro rfl; cases hletter)
    by_cases hcontrol : c.toNat < 0x20
    · simp [hcontrol, readPieces, unit?_of_lt _ hcontrol]
    · simpa [hcontrol] using readPieces_plain hne.1 hne.2 hcontrol s

theorem readPieces_quoted (s rest : List Char) :
    readPieces (s.flatMap quotedChar ++ '"' :: rest) = some (s.map pieceOf, rest) := by
  induction s with
  | nil => rfl
  | cons c s ih =>
    rw [List.flatMap_cons, List.append_assoc, readPieces_quotedChar, ih]
    rfl

/-! ## Joining the pieces -/

theorem joinPieces_unit {n : Nat} (h : n < 0x20) (pieces : List Piece) :
    joinPieces (.unit n :: pieces) = (joinPieces pieces).map (.ofNat n :: ·) := by
  have hhigh : isHighSurrogate n = false := by simp [isHighSurrogate]; omega
  have hlow : isLowSurrogate n = false := by simp [isLowSurrogate]; omega
  rw [joinPieces.eq_def]
  split <;> simp_all

theorem joinPieces_pieceOf (s : List Char) : joinPieces (s.map pieceOf) = some s := by
  induction s with
  | nil => rfl
  | cons c s ih =>
    rw [List.map_cons, pieceOf]
    split
    · rename_i h
      rw [joinPieces_unit h.2, ih, Char.ofNat_toNat]
      rfl
    · rw [joinPieces, ih]
      rfl

/-- A quoted text is read as it was written, up to the mark that ends it. -/
theorem readQuoted_quoted (s rest : List Char) :
    readQuoted (s.flatMap quotedChar ++ '"' :: rest) = some (s, rest) := by
  simp [readQuoted, readPieces_quoted, joinPieces_pieceOf]

end CallGuard
