/-!
# Quoted text of JSON

A text stands between quotation marks. The mark itself, the backslash and the
control characters below U+0020 are escaped, the ones that have a letter with
it (`\n`) and the others by four hexadecimal digits; every other character
stands for itself.

Reading accepts more than writing produces : any UTF-16 unit may be given by four
hexadecimal digits. It has two steps. `readPieces` takes the text apart into
characters and units up to the closing mark, and `joinPieces` puts pairs of
surrogates together and refuses a surrogate that is left alone.
-/

namespace CallGuard

/-- The letters that stand for control characters, the mark and the backslash. -/
def escapeLetters : List (Char × Char) :=
  [('"', '"'), ('\\', '\\'), ('\x08', 'b'), ('\t', 't'), ('\n', 'n'), ('\x0c', 'f'), ('\r', 'r')]

/-- A character as it stands between quotation marks. -/
def quotedChar (c : Char) : List Char :=
  match escapeLetters.lookup c with
  | some letter => ['\\', letter]
  | none =>
    if c.toNat < 0x20 then
      ['\\', 'u', '0', '0', Nat.digitChar (c.toNat / 16), Nat.digitChar (c.toNat % 16)]
    else [c]

/-- A text between quotation marks. -/
def quoted (s : List Char) : List Char := '"' :: s.flatMap quotedChar ++ ['"']

/-- The character that a letter after a backslash stands for. -/
def unescape? (letter : Char) : Option Char :=
  if letter = '/' then some '/' else (escapeLetters.find? fun pair => pair.2 = letter).map (·.1)

/-- The value of a hexadecimal digit. -/
def hexDigit? (c : Char) : Option Nat :=
  if '0' ≤ c ∧ c ≤ '9' then some (c.toNat - '0'.toNat)
  else if 'a' ≤ c ∧ c ≤ 'f' then some (c.toNat - 'a'.toNat + 10)
  else if 'A' ≤ c ∧ c ≤ 'F' then some (c.toNat - 'A'.toNat + 10)
  else none

/-- The UTF-16 unit of four hexadecimal digits. -/
def unit? (a b c d : Char) : Option Nat := do
  some (((← hexDigit? a) * 16 + (← hexDigit? b)) * 256 + ((← hexDigit? c) * 16 + (← hexDigit? d)))

/-- What quoted text is made of. -/
inductive Piece
  /-- A character. -/
  | char (c : Char)
  /-- A UTF-16 unit given by its digits. -/
  | unit (n : Nat)
  deriving DecidableEq

/-- Puts a piece in front of what has been read. -/
def withPiece (piece : Piece) (r : List Piece × List Char) : List Piece × List Char :=
  (piece :: r.1, r.2)

/-- The pieces up to the closing mark, and what follows it. -/
def readPieces : List Char → Option (List Piece × List Char)
  | [] => none
  | '"' :: rest => some ([], rest)
  | '\\' :: 'u' :: a :: b :: c :: d :: rest =>
    (unit? a b c d).bind fun n => (readPieces rest).map (withPiece (.unit n))
  | '\\' :: letter :: rest =>
    (unescape? letter).bind fun c => (readPieces rest).map (withPiece (.char c))
  | c :: rest =>
    if c = '\\' ∨ c.toNat < 0x20 then none else (readPieces rest).map (withPiece (.char c))

/-- Whether a unit is the first half of a pair. -/
def isHighSurrogate (n : Nat) : Bool := decide (0xd800 ≤ n ∧ n < 0xdc00)

/-- Whether a unit is the second half of a pair. -/
def isLowSurrogate (n : Nat) : Bool := decide (0xdc00 ≤ n ∧ n < 0xe000)

/-- The characters of a list of pieces, if no surrogate stands alone. -/
def joinPieces : List Piece → Option (List Char)
  | [] => some []
  | .char c :: rest => (joinPieces rest).map (c :: ·)
  | .unit high :: .unit low :: rest =>
    if isHighSurrogate high then
      if isLowSurrogate low then
        (joinPieces rest).map (.ofNat (0x10000 + (high - 0xd800) * 0x400 + (low - 0xdc00)) :: ·)
      else none
    else if isLowSurrogate high then none
    else (joinPieces (.unit low :: rest)).map (.ofNat high :: ·)
  | .unit n :: rest =>
    if isHighSurrogate n || isLowSurrogate n then none else (joinPieces rest).map (.ofNat n :: ·)

/-- A text whose opening mark has been read, and what follows its closing mark. -/
def readQuoted (s : List Char) : Option (List Char × List Char) := do
  let (pieces, rest) ← readPieces s
  some (← joinPieces pieces, rest)

theorem length_lt_of_map_withPiece {piece : Piece} {r : Option (List Piece × List Char)}
    {pieces : List Piece} {rest : List Char} {n : Nat}
    (ih : ∀ {ps rest}, r = some (ps, rest) → rest.length < n)
    (h : r.map (withPiece piece) = some (pieces, rest)) : rest.length < n := by
  obtain ⟨⟨ps, r'⟩, hr, he⟩ := Option.map_eq_some_iff.1 h
  cases he
  exact ih hr

/-- The closing mark is read, so less text follows than there was. -/
theorem length_lt_of_readPieces {s rest : List Char} {pieces : List Piece}
    (h : readPieces s = some (pieces, rest)) : rest.length < s.length := by
  fun_induction readPieces s generalizing pieces rest with
  | case1 => cases h
  | case2 r => cases h; simp
  | case3 a b c d r ih =>
    obtain ⟨n, -, h⟩ := Option.bind_eq_some_iff.1 h
    have := length_lt_of_map_withPiece ih h
    simp only [List.length_cons]
    omega
  | case4 letter r _ ih =>
    obtain ⟨c, -, h⟩ := Option.bind_eq_some_iff.1 h
    have := length_lt_of_map_withPiece ih h
    simp only [List.length_cons]
    omega
  | case5 => cases h
  | case6 c r _ _ _ _ ih =>
    have := length_lt_of_map_withPiece ih h
    simp only [List.length_cons]
    omega

theorem length_lt_of_readQuoted {s t rest : List Char} (h : readQuoted s = some (t, rest)) :
    rest.length < s.length := by
  simp only [readQuoted, Option.bind_eq_bind, Option.bind_eq_some_iff] at h
  obtain ⟨⟨ps, r⟩, hp, cs, -, he⟩ := h
  cases he
  exact length_lt_of_readPieces hp

example : quoted "a\"\n/\x01".toList = "\"a\\\"\\n/\\u0001\"".toList := by decide

example : readQuoted "\\u0041\\ud83d\\ude00\"!".toList = some ("A😀".toList, ['!']) := by decide

example : readQuoted "\\ude00\"".toList = none := by decide

end CallGuard
