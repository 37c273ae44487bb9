import CallGuard.Json.Numeral
import CallGuard.Proofs.Nearness
import Std.Data.String.ToNat

/-!
# Numbers are read as they were written

A number in JSON text ends where the text cannot go on with it : at the end of the text, or
before a character that is neither a digit nor a point nor the letter of an exponent. There
`readNumber` gives back the number that was written, and what follows it
(`readNumber_text`).

Reading and writing meet in the numeral. `Numeral.chars` is a numeral as it is written, and a
proper one is read as itself (`readNumeral_chars`). The text of a number is that of a proper
numeral (`exists_numeral_of_integer`, `Decimal.exists_isForm`), and the numeral stands for
that number : an integer has the value of its digits, and the decimal of any other is in the cell
of the number, up to zeros at its end.
-/

namespace CallGuard

/-- Whether a text is empty or begins with a character that is not of a sort. -/
def Stops (sort : Char → Bool) (s : List Char) : Prop := ∀ c ∈ s.head?, sort c = false

/-- Whether a number may go on with a character. -/
def isNumberChar (c : Char) : Bool := c.isDigit || c == '.' || c == 'e' || c == 'E'

variable {rest : List Char}

@[simp] theorem stops_nil (sort : Char → Bool) : Stops sort [] := by simp [Stops]

@[simp] theorem stops_cons (sort : Char → Bool) (c : Char) (s : List Char) :
    Stops sort (c :: s) ↔ sort c = false := by simp [Stops]

theorem Stops.mono {sort more : Char → Bool} (h : Stops more rest) (hle : ∀ c, sort c → more c) :
    Stops sort rest := fun c hc => Bool.eq_false_iff.2 fun hsort =>
  Bool.eq_false_iff.1 (h c hc) (hle c hsort)

/-- Whether a number without an exponent may go on with a character. -/
def isPointOrDigit (c : Char) : Bool := c.isDigit || c == '.'

theorem isPointOrDigit_of_isDigit (c : Char) (h : c.isDigit) : isPointOrDigit c := by
  simp [isPointOrDigit, h]

theorem isNumberChar_of_isPointOrDigit (c : Char) (h : isPointOrDigit c) : isNumberChar c := by
  rw [isPointOrDigit] at h
  simp [isNumberChar, h]

/-! ## Digits -/

theorem isDigit_of_mem_digitsOf {n : Nat} {c : Char} (h : c ∈ digitsOf n) : c.isDigit :=
  Nat.isDigit_of_mem_toDigits (by decide) (by decide) h

theorem digitsOf_ne_nil (n : Nat) : digitsOf n ≠ [] := Nat.toDigits_ne_nil

@[simp] theorem digitsValue_digitsOf (n : Nat) : digitsValue (digitsOf n) = n :=
  Nat.ofDigitChars_ten_toDigits

theorem digitsValue_append (digits more : List Char) :
    digitsValue (digits ++ more) = 10 ^ more.length * digitsValue digits + digitsValue more := by
  rw [digitsValue, Nat.ofDigitChars_append, Nat.ofDigitChars_eq_ofDigitChars_zero]
  rfl

theorem digitsValue_replicate (n : Nat) : digitsValue (.replicate n '0') = 0 := by
  rw [digitsValue, Nat.ofDigitChars_replicate_zero, Nat.mul_zero]

theorem head?_digitsOf_append (n : Nat) (s : List Char) :
    (digitsOf n ++ s).head? = (digitsOf n).head? := by
  obtain ⟨c, r, hr⟩ := List.exists_cons_of_ne_nil (digitsOf_ne_nil n)
  rw [hr]
  rfl

/-- The digits of a number that is not zero do not begin with a zero. -/
theorem head?_digitsOf_ne {n : Nat} (h : n ≠ 0) : (digitsOf n).head? ≠ some '0' := by
  induction n using Nat.strongRecOn with
  | ind n ih =>
    rcases Nat.lt_or_ge n 10 with hn | hn
    · rw [digitsOf, Nat.toDigits_of_lt_base hn]
      have hdigit : ∀ n < 10, n.digitChar = '0' → n = 0 := by decide
      intro hzero
      exact h (hdigit n hn (by simpa using hzero))
    · rw [digitsOf, Nat.toDigits_of_base_le (by decide) hn, ← digitsOf, head?_digitsOf_append]
      exact ih (n / 10) (by omega) (by omega)

theorem digitsOf_eq_of_head? {n : Nat} (h : (digitsOf n).head? = some '0') :
    digitsOf n = ['0'] := by
  by_cases hn : n = 0
  · subst hn
    rfl
  · exact absurd h (head?_digitsOf_ne hn)

theorem spanDigits_append {digits : List Char} (hdigits : ∀ c ∈ digits, c.isDigit)
    (hrest : Stops Char.isDigit rest) : spanDigits (digits ++ rest) = (digits, rest) := by
  have hnone : rest.takeWhile Char.isDigit = [] ∧ rest.dropWhile Char.isDigit = rest := by
    cases rest with
    | nil => exact ⟨rfl, rfl⟩
    | cons c s =>
      have hc : c.isDigit = false := (stops_cons ..).1 hrest
      simp [hc]
  rw [spanDigits, List.takeWhile_append_of_pos hdigits, List.dropWhile_append_of_pos hdigits,
    hnone.1, hnone.2, List.append_nil]

/-! ## The parts of a numeral -/

/-- The sign of a numeral as it is written. -/
def signChars (negative : Bool) : List Char := if negative then ['-'] else []

/-- The fraction of a numeral as it is written. -/
def fractionChars : Option (List Char) → List Char
  | none => []
  | some digits => '.' :: digits

/-- The exponent of a numeral as it is written. -/
def exponentChars : Option Int → List Char
  | none => []
  | some power => 'e' :: (if power < 0 then '-' else '+') :: digitsOf power.natAbs

theorem readSign_append (negative : Bool) {c : Char} {s : List Char} (hc : c.isDigit) :
    readSign false (signChars negative ++ c :: s) = (negative, c :: s) := by
  cases negative with
  | true => rfl
  | false =>
    have hminus : c ≠ '-' := by rintro rfl; simp at hc
    have hplus : c ≠ '+' := by rintro rfl; simp at hc
    show readSign false (c :: s) = _
    unfold readSign
    split <;> simp_all

theorem readWhole_append {whole : List Char} (hne : whole ≠ [])
    (hdigits : ∀ c ∈ whole, c.isDigit) (hzero : whole.head? = some '0' → whole = ['0'])
    (hrest : Stops Char.isDigit rest) : readWhole (whole ++ rest) = some (whole, rest) := by
  rw [readWhole, spanDigits_append hdigits hrest]
  split <;> simp_all

theorem readFraction_append {fraction? : Option (List Char)}
    (hfraction : ∀ digits ∈ fraction?, digits ≠ [] ∧ ∀ c ∈ digits, c.isDigit)
    (hrest : Stops isPointOrDigit rest) :
    readFraction (fractionChars fraction? ++ rest) = some (fraction?, rest) := by
  have hdigit : Stops Char.isDigit rest := hrest.mono isPointOrDigit_of_isDigit
  cases fraction? with
  | none =>
    show readFraction rest = _
    unfold readFraction
    split
    · simp [isPointOrDigit] at hrest
    · rfl
  | some digits =>
    obtain ⟨hne, hdigits⟩ := hfraction digits rfl
    show readFraction ('.' :: (digits ++ rest)) = _
    simp [readFraction, spanDigits_append hdigits hdigit]

theorem readExponent_append (exponent? : Option Int) (hrest : Stops isNumberChar rest) :
    readExponent (exponentChars exponent? ++ rest) = some (exponent?, rest) := by
  cases exponent? with
  | none =>
    show readExponent rest = _
    unfold readExponent
    split
    · simp [isNumberChar] at hrest
    · simp [isNumberChar] at hrest
    · rfl
  | some power =>
    have hsign : readSign true ((if power < 0 then '-' else '+') :: digitsOf power.natAbs ++ rest) =
        (decide (power < 0), digitsOf power.natAbs ++ rest) := by
      split <;> simp_all [readSign]
    have hdigit : Stops Char.isDigit rest := hrest.mono fun c h =>
      isNumberChar_of_isPointOrDigit c (isPointOrDigit_of_isDigit c h)
    show readPower (_ :: _ ++ rest) = _
    unfold readPower
    rw [hsign, spanDigits_append (fun _ => isDigit_of_mem_digitsOf) hdigit]
    split
    · rename_i h
      exact absurd (congrArg Prod.fst h) (digitsOf_ne_nil _)
    · rename_i h
      obtain ⟨rfl, rfl⟩ := Prod.mk.inj h
      simp only [digitsValue_digitsOf, decide_eq_true_eq, Option.some.injEq, Prod.mk.injEq,
        and_true]
      split <;> omega

/-! ## Numerals -/

namespace Numeral

/-- A numeral as it is written, the exponent with its sign. -/
def chars (n : Numeral) : List Char :=
  signChars n.negative ++ (n.whole ++ (fractionChars n.fraction? ++ exponentChars n.exponent?))

/-- What is read as a numeral : digits without a needless zero in front, and digits after the
point if there is one. -/
structure IsProper (n : Numeral) : Prop where
  whole_ne_nil : n.whole ≠ []
  isDigit_whole : ∀ c ∈ n.whole, c.isDigit
  whole_eq_of_zero : n.whole.head? = some '0' → n.whole = ['0']
  isDigit_fraction : ∀ digits ∈ n.fraction?, digits ≠ [] ∧ ∀ c ∈ digits, c.isDigit

/-- The decimal that a numeral stands for, but for its sign. -/
def decimal (n : Numeral) : Decimal :=
  ⟨digitsValue (n.whole ++ n.fraction?.getD []),
    n.exponent?.getD 0 - (n.fraction?.getD []).length⟩

theorem nearest_eq (n : Numeral) :
    n.nearest = .ofDecimal n.negative n.decimal.digits n.decimal.exponent := rfl

end Numeral

/-- A proper numeral is read as it was written, where nothing goes on with it. -/
theorem readNumeral_chars {n : Numeral} (h : n.IsProper) (hrest : Stops isNumberChar rest) :
    readNumeral (n.chars ++ rest) = some (n, rest) := by
  obtain ⟨negative, whole, fraction?, exponent?⟩ := n
  obtain ⟨hne, hwhole, hzero, hfraction⟩ := h
  have hexponent : Stops isPointOrDigit (exponentChars exponent? ++ rest) := by
    cases exponent? with
    | none => exact hrest.mono isNumberChar_of_isPointOrDigit
    | some power => exact (stops_cons _ _ _).2 rfl
  have hpoint : Stops Char.isDigit
      (fractionChars fraction? ++ (exponentChars exponent? ++ rest)) := by
    cases fraction? with
    | none => exact hexponent.mono isPointOrDigit_of_isDigit
    | some digits => exact (stops_cons _ _ _).2 rfl
  have hsign : readSign false (signChars negative ++
      (whole ++ (fractionChars fraction? ++ (exponentChars exponent? ++ rest)))) =
      (negative, whole ++ (fractionChars fraction? ++ (exponentChars exponent? ++ rest))) := by
    cases whole with
    | nil => exact absurd rfl hne
    | cons c s => exact readSign_append negative (hwhole c List.mem_cons_self)
  simp only [readNumeral, Numeral.chars, List.append_assoc]
  rw [hsign, readWhole_append hne hwhole hzero hpoint, Option.bind_some,
    readFraction_append hfraction hexponent, Option.bind_some,
    readExponent_append exponent? hrest, Option.map_some]

/-! ## Decimals -/

/-- A numeral is a form of a decimal : it is written as a text behind its sign and is not digits
alone, and it stands in the same cells. -/
structure Numeral.IsForm (n : Numeral) (text : List Char) (d : Decimal) : Prop where
  proper : n.IsProper
  chars_eq : n.chars = signChars n.negative ++ text
  has_part : n.fraction?.isSome ∨ n.exponent?.isSome
  contains_eq : ∀ cell : Cell, cell.contains n.decimal = cell.contains d

namespace Decimal

variable {d : Decimal}

theorem isForm_of_point {whole fraction : List Char} (negative : Bool)
    (hwhole : whole ≠ []) (hfraction : fraction ≠ [])
    (hdigits : ∀ c ∈ whole ++ fraction, c.isDigit) (hzero : whole.head? = some '0' → whole = ['0'])
    (hcontains : ∀ cell : Cell,
      cell.contains ⟨digitsValue (whole ++ fraction), -fraction.length⟩ = cell.contains d) :
    Numeral.IsForm ⟨negative, whole, some fraction, none⟩ (whole ++ '.' :: fraction) d where
  proper := {
    whole_ne_nil := hwhole
    isDigit_whole := fun c hc => hdigits c (List.mem_append_left _ hc)
    whole_eq_of_zero := hzero
    isDigit_fraction := by
      rintro _ ⟨⟩
      exact ⟨hfraction, fun c hc => hdigits c (List.mem_append_right _ hc)⟩ }
  chars_eq := by simp [Numeral.chars, fractionChars, exponentChars]
  has_part := Or.inl rfl
  contains_eq cell := by
    rw [← hcontains, Numeral.decimal]
    congr 2
    show (0 : Int) - fraction.length = -fraction.length
    omega

theorem isDigit_of_mem_replicate {n : Nat} {c : Char} (h : c ∈ List.replicate n '0') :
    c.isDigit := by
  rw [List.eq_of_mem_replicate h]
  rfl

/-- Zeros between the digits and the point. -/
theorem isForm_of_zeros (negative : Bool) {digits : Nat} (zeros : Nat) (h : digits ≠ 0) :
    Numeral.IsForm ⟨negative, digitsOf digits ++ .replicate zeros '0', some ['0'], none⟩
      (digitsOf digits ++ .replicate zeros '0' ++ ['.', '0']) ⟨digits, zeros⟩ := by
  have happend : digitsOf digits ++ List.replicate zeros '0' ++ ['0'] =
      digitsOf digits ++ List.replicate (zeros + 1) '0' := by
    rw [List.append_assoc, List.replicate_succ']
  refine isForm_of_point negative (by simp [digitsOf_ne_nil]) (by simp) ?_ ?_ fun cell => ?_
  · rw [happend]
    intro c hc
    exact (List.mem_append.1 hc).elim isDigit_of_mem_digitsOf isDigit_of_mem_replicate
  · intro hzero
    rw [head?_digitsOf_append] at hzero
    exact absurd hzero (head?_digitsOf_ne h)
  · rw [happend, digitsValue_append, digitsValue_replicate, digitsValue_digitsOf,
      List.length_replicate, Nat.add_zero, Nat.mul_comm]
    exact cell.contains_with_zeros digits zeros

/-- A point between the digits. -/
theorem isForm_of_split (negative : Bool) {digits places : Nat} (h : digits ≠ 0)
    (hplaces : 0 < places) (hlt : places < (digitsOf digits).length) :
    let whole := (digitsOf digits).take ((digitsOf digits).length - places)
    let fraction := (digitsOf digits).drop ((digitsOf digits).length - places)
    Numeral.IsForm ⟨negative, whole, some fraction, none⟩ (whole ++ '.' :: fraction)
      ⟨digits, -places⟩ := by
  intro whole fraction
  have happend : whole ++ fraction = digitsOf digits := List.take_append_drop ..
  have hwhole : whole.length = (digitsOf digits).length - places :=
    List.length_take_of_le (Nat.sub_le _ _)
  have hfraction : fraction.length = places := by
    have := congrArg List.length happend
    rw [List.length_append] at this
    omega
  refine isForm_of_point negative ?_ ?_ ?_ ?_ fun cell => ?_
  · exact List.length_pos_iff.1 (by omega)
  · exact List.length_pos_iff.1 (by omega)
  · rw [happend]
    exact fun c => isDigit_of_mem_digitsOf
  · intro hzero
    refine absurd ?_ (head?_digitsOf_ne h)
    rw [← happend, List.head?_append, hzero]
    rfl
  · rw [happend, digitsValue_digitsOf, hfraction]

/-- Zeros between the point and the digits. -/
theorem isForm_of_leading_zeros (negative : Bool) {digits places : Nat}
    (hle : (digitsOf digits).length ≤ places) :
    let fraction := .replicate (places - (digitsOf digits).length) '0' ++ digitsOf digits
    Numeral.IsForm ⟨negative, ['0'], some fraction, none⟩ ('0' :: '.' :: fraction)
      ⟨digits, -places⟩ := by
  intro fraction
  have happend : ['0'] ++ fraction =
      .replicate (places - (digitsOf digits).length + 1) '0' ++ digitsOf digits := rfl
  refine isForm_of_point negative (by simp) (by simp [fraction, digitsOf_ne_nil]) ?_ (fun _ => rfl)
    fun cell => ?_
  · rw [happend]
    intro c hc
    exact (List.mem_append.1 hc).elim isDigit_of_mem_replicate isDigit_of_mem_digitsOf
  · have hfraction : fraction.length = places := by
      simp only [fraction, List.length_append, List.length_replicate]
      omega
    rw [happend, digitsValue_append, digitsValue_replicate, digitsValue_digitsOf, hfraction,
      Nat.mul_zero, Nat.zero_add]

/-- A decimal is written with a point in a form of it. -/
theorem exists_isForm_positional (negative : Bool) (h : d.digits ≠ 0) :
    ∃ n : Numeral, n.negative = negative ∧ n.IsForm (d.positional true) d := by
  obtain ⟨digits, exponent⟩ := d
  unfold positional
  dsimp only
  split
  · rename_i hexponent
    obtain ⟨zeros, rfl⟩ := Int.eq_ofNat_of_zero_le hexponent
    exact ⟨_, rfl, isForm_of_zeros negative zeros h⟩
  · rename_i hexponent
    obtain ⟨places, rfl⟩ : ∃ places : Nat, exponent = -places := ⟨exponent.natAbs, by omega⟩
    have hplaces : (- -(places : Int)).toNat = places := by omega
    rw [hplaces]
    split
    · rename_i hlt
      exact ⟨_, rfl, isForm_of_split negative h (by omega) hlt⟩
    · rename_i hle
      exact ⟨_, rfl, isForm_of_leading_zeros negative (Nat.not_lt.1 hle)⟩

/-- One digit before the point, and no point if it is the only one. -/
theorem isForm_of_first (negative : Bool) {first : Char} (fraction? : Option (List Char))
    (hdigits : digitsOf d.digits = first :: fraction?.getD [])
    (hfraction : ∀ digits ∈ fraction?, digits ≠ []) :
    Numeral.IsForm ⟨negative, [first], fraction?, some d.leadingPower⟩
      (first :: fractionChars fraction? ++ exponentChars (some d.leadingPower)) d where
  proper := {
    whole_ne_nil := by simp
    isDigit_whole := fun c hc => by
      rw [List.mem_singleton.1 hc]
      exact isDigit_of_mem_digitsOf (hdigits ▸ List.mem_cons_self)
    whole_eq_of_zero := fun h => by simpa using h
    isDigit_fraction := by
      rintro digits ⟨⟩
      exact ⟨hfraction digits rfl, fun c hc =>
        isDigit_of_mem_digitsOf (hdigits ▸ List.mem_cons_of_mem first hc)⟩ }
  chars_eq := by simp [Numeral.chars]
  has_part := Or.inr rfl
  contains_eq cell := by
    have hvalue : digitsValue ([first] ++ fraction?.getD []) = d.digits := by
      rw [List.singleton_append, ← hdigits, digitsValue_digitsOf]
    have hexponent : d.leadingPower - (fraction?.getD []).length = d.exponent := by
      rw [leadingPower, hdigits, List.length_cons]
      omega
    show cell.contains ⟨digitsValue ([first] ++ fraction?.getD []), d.leadingPower - _⟩ = _
    rw [hvalue, hexponent]

/-- A decimal is written with an exponent in a form of it. -/
theorem exists_isForm_scientific (negative : Bool) (d : Decimal) :
    ∃ n : Numeral, n.negative = negative ∧ n.IsForm (d.scientific ['+']) d := by
  have hexponent : exponentChars (some d.leadingPower) =
      'e' :: (if d.leadingPower < 0 then ['-'] else ['+']) ++ digitsOf d.leadingPower.natAbs := by
    rw [exponentChars]
    split <;> rfl
  unfold scientific
  rw [List.append_assoc, ← hexponent]
  match hdigits : digitsOf d.digits with
  | [] => exact absurd hdigits (digitsOf_ne_nil _)
  | [first] =>
    exact ⟨_, rfl, isForm_of_first negative none hdigits (by simp)⟩
  | first :: second :: rest =>
    exact ⟨_, rfl, isForm_of_first negative (some (second :: rest)) hdigits (by simp)⟩

/-- What a decimal is written as in documents is a form of it. -/
theorem exists_isForm (negative : Bool) (h : d.digits ≠ 0) :
    ∃ n : Numeral, n.negative = negative ∧ n.IsForm (NumberStyle.data.decimal d) d := by
  rw [NumberStyle.decimal]
  split
  · exact exists_isForm_positional negative h
  · exact exists_isForm_scientific negative d

end Decimal

/-! ## Numbers -/

theorem Number.zero_isNegative {x : Number} (h : x.isZero) : zero x.isNegative = x := by
  have hmagnitude : x.magnitude = 0 := by simpa [isZero] using h
  exact ext_magnitude (isNegative_ofMagnitude _ (by decide))
    ((magnitude_ofMagnitude _ (by decide)).trans hmagnitude.symm)

namespace Numeral

theorem real?_eq {x : Number} (hx : x.isFinite) : real? x = some (.real x hx) := dif_pos hx

theorem nearest_of_digits_eq_zero {n : Numeral} (h : n.decimal.digits = 0) :
    n.nearest = .zero n.negative := by
  rw [nearest_eq, Number.ofDecimal, if_pos h]

theorem value?_eq_real? {n : Numeral} (h : n.fraction?.isSome ∨ n.exponent?.isSome) :
    n.value? = real? n.nearest := by
  rw [value?, if_neg]
  rintro ⟨hfraction, hexponent⟩
  rw [Option.isNone_iff_eq_none] at hfraction hexponent
  simp [hfraction, hexponent] at h

end Numeral

theorem toList_repr_eq (n : Int) :
    n.repr.toList = signChars (decide (n < 0)) ++ digitsOf n.natAbs := by
  rw [Int.repr_eq_if, signChars]
  by_cases hn : n < 0
  · have habs : (-n).toNat = n.natAbs := by omega
    rw [if_neg (by omega), if_pos (decide_eq_true hn), String.toList_append, Nat.toList_repr, habs]
    rfl
  · have habs : n.toNat = n.natAbs := by omega
    rw [if_pos (by omega), if_neg (by simpa using hn), Nat.toList_repr, habs]
    rfl

/-- The text of an integer is a proper numeral that stands for it. -/
theorem exists_numeral_of_integer {n : Int} (bounds : -2 ^ (63 : Nat) ≤ n ∧ n < 2 ^ (64 : Nat)) :
    ∃ m : Numeral, m.IsProper ∧ m.chars = n.repr.toList ∧ m.value? = some (.integer n bounds) := by
  refine ⟨⟨decide (n < 0), digitsOf n.natAbs, none, none⟩, ?_, ?_, ?_⟩
  · exact ⟨digitsOf_ne_nil _, fun _ => isDigit_of_mem_digitsOf, digitsOf_eq_of_head?,
      fun _ h => by cases h⟩
  · rw [toList_repr_eq, Numeral.chars, fractionChars, exponentChars, List.append_nil,
      List.append_nil]
  · rw [Numeral.value?, if_pos ⟨rfl, rfl⟩]
    simp only [digitsValue_digitsOf, decide_eq_true_eq]
    split
    · rw [dif_pos (by omega)]
      congr 2
      omega
    · rw [dif_pos (by omega)]
      congr 2
      omega

/-- The text of a number that is not an integer is a proper numeral that stands for it. -/
theorem exists_numeral_of_real {x : Number} (hx : x.isFinite) :
    ∃ m : Numeral, m.IsProper ∧ m.chars = (x.writeFinite .data).toList ∧
      m.value? = some (.real x hx) := by
  have hsigned : (x.writeFinite .data).toList =
      signChars x.isNegative ++ (x.writeSize .data).toList := by
    rw [Number.writeFinite, signChars]
    cases x.isNegative <;> simp [NumberStyle.data]
  rw [hsigned]
  cases hzero : x.isZero with
  | true =>
    have hsize : x.writeSize .data = "0.0" := by rw [Number.writeSize, if_pos hzero]; rfl
    have hm : Numeral.IsForm ⟨x.isNegative, ['0'], some ['0'], none⟩ ['0', '.', '0'] ⟨0, -1⟩ :=
      Decimal.isForm_of_point x.isNegative (by simp) (by simp) (by simp) (fun _ => rfl)
        fun _ => rfl
    have hnearest : Numeral.nearest ⟨x.isNegative, ['0'], some ['0'], none⟩ = x :=
      (Numeral.nearest_of_digits_eq_zero rfl).trans (Number.zero_isNegative hzero)
    refine ⟨_, hm.proper, ?_, ?_⟩
    · rw [hm.chars_eq, hsize]
      rfl
    · rw [Numeral.value?_eq_real? hm.has_part, hnearest, Numeral.real?_eq hx]
  | false =>
    have hsize : x.writeSize .data = .ofList (NumberStyle.data.decimal (x.shortest .even)) := by
      rw [Number.writeSize, if_neg (by simp [hzero])]
      rfl
    have hcontains := Number.contains_cell_shortest .even hzero
    obtain ⟨m, hnegative, hm⟩ := Decimal.exists_isForm x.isNegative
      (Number.digits_ne_zero_of_contains hzero hcontains)
    refine ⟨m, hm.proper, ?_, ?_⟩
    · rw [hm.chars_eq, hnegative, hsize, String.toList_ofList]
    · rw [Numeral.value?_eq_real? hm.has_part, m.nearest_eq, hnegative,
        Number.ofDecimal_of_contains hx hzero (hm.contains_eq _ ▸ hcontains), Numeral.real?_eq hx]

/-- The text of a number is a proper numeral that stands for it. -/
theorem exists_numeral (n : JsonNumber) :
    ∃ m : Numeral, m.IsProper ∧ m.chars = n.text.toList ∧ m.value? = some n := by
  cases n with
  | integer n bounds => exact exists_numeral_of_integer bounds
  | real x finite => exact exists_numeral_of_real finite

/-- A number is read as it was written, where nothing goes on with it. -/
theorem readNumber_text (n : JsonNumber) (hrest : Stops isNumberChar rest) :
    readNumber (n.text.toList ++ rest) = some (n, rest) := by
  obtain ⟨m, hproper, hchars, hvalue⟩ := exists_numeral n
  rw [readNumber, ← hchars, readNumeral_chars hproper hrest, Option.bind_some]
  dsimp only
  rw [hvalue, Option.map_some]

/-- A number begins with a minus or a digit. -/
theorem exists_text_eq_cons (n : JsonNumber) :
    ∃ c s, n.text.toList = c :: s ∧ (c = '-' ∨ c.isDigit) := by
  obtain ⟨m, hproper, hchars, -⟩ := exists_numeral n
  rw [← hchars, Numeral.chars, signChars]
  split
  · exact ⟨_, _, rfl, Or.inl rfl⟩
  · obtain ⟨c, s, hwhole⟩ := List.exists_cons_of_ne_nil hproper.whole_ne_nil
    exact ⟨c, _, by rw [hwhole]; rfl, Or.inr (hproper.isDigit_whole c (by simp [hwhole]))⟩

end CallGuard
