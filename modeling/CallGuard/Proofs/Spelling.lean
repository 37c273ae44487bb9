import CallGuard.Profile
import Mathlib.Data.List.Forall2
import Mathlib.Data.List.TakeWhile

/-!
# How a profile is spelled

A text spells a profile if it is blanks, then the name of the profile with each letter small
or capital, then blanks (`Profile.IsSpelledBy`). These are the texts that are read as the
profile, and all others are refused (`Profile.parse_eq_ok_iff`, `Profile.parse_eq_error_iff`).
A variable that holds one of the others is ignored, and one warning says so
(`Profile.ofVariable_of_not_spelled`).

Two facts carry this. Trimming finds the word whatever the blanks are : it leaves the same
of a text and of the text with blanks around it (`trimChars_append`), and a word of letters
as it is. Folding makes a letter of a character only if the character is that letter or its
capital (`lowerAscii_eq_iff`), so that no other alphabet slips in.
-/

namespace CallGuard

/-! ## Trimming -/

section Trimming

variable {before after : List Char}

/-- Trimming does not see how many blanks there are around a text. -/
theorem trimChars_append (hbefore : ∀ c ∈ before, isBlank c)
    (hafter : ∀ c ∈ after, isBlank c) (s : List Char) :
    trimChars (before ++ s ++ after) = trimChars s := by
  have hreverse : ∀ c ∈ after.reverse, isBlank c := fun c hc => hafter c (List.mem_reverse.1 hc)
  rw [trimChars, List.append_assoc, List.dropWhile_append_of_pos hbefore, List.dropWhile_append]
  split
  · rename_i hs
    rw [trimChars, List.dropWhile_eq_nil_iff.2 hafter, List.isEmpty_iff.1 hs]
  · rw [List.reverse_append, List.dropWhile_append_of_pos hreverse, trimChars]

/-- Only blanks are trimmed, and only at the ends. -/
theorem exists_eq_append_trimChars (s : List Char) :
    ∃ before after, s = before ++ trimChars s ++ after ∧
      (∀ c ∈ before, isBlank c) ∧ ∀ c ∈ after, isBlank c := by
  refine ⟨s.takeWhile isBlank, ((s.dropWhile isBlank).reverse.takeWhile isBlank).reverse, ?_,
    fun c hc => List.mem_takeWhile_imp hc,
    fun c hc => List.mem_takeWhile_imp (List.mem_reverse.1 hc)⟩
  rw [trimChars, List.append_assoc, ← List.reverse_append, List.takeWhile_append_dropWhile,
    List.reverse_reverse, List.takeWhile_append_dropWhile]

theorem trimChars_of_not_blank {s : List Char} (h : ∀ c ∈ s, isBlank c = false) :
    trimChars s = s :=
  (trimChars_eq_self_iff s).2
    ⟨fun c hc => h c (List.mem_of_head? hc), fun c hc => h c (List.mem_of_getLast? hc)⟩

theorem not_mem_of_not_blank {s : List Char} (hs : ∀ c ∈ s, isBlank c) {c : Char}
    (hc : isBlank c = false) : c ∉ s := by
  intro h
  rw [hs c h] at hc
  cases hc

/-- What is not blank is not trimmed. -/
theorem mem_trimChars_of_not_blank {s : List Char} {c : Char} (h : c ∈ s)
    (hc : isBlank c = false) : c ∈ trimChars s := by
  obtain ⟨left, right, heq, hleft, hright⟩ := exists_eq_append_trimChars s
  rw [heq, List.mem_append, List.mem_append] at h
  rcases h with (h | h) | h
  · exact absurd h (not_mem_of_not_blank hleft hc)
  · exact h
  · exact absurd h (not_mem_of_not_blank hright hc)

/-- What stands between characters that are not blank is not trimmed either. -/
theorem mem_trimChars_of_between (c : Char) (hbefore : ∃ b ∈ before, isBlank b = false)
    (hafter : ∃ a ∈ after, isBlank a = false) : c ∈ trimChars (before ++ c :: after) := by
  obtain ⟨b, hb, hbblank⟩ := hbefore
  obtain ⟨a, ha, hablank⟩ := hafter
  obtain ⟨left, right, heq, hleft, hright⟩ := exists_eq_append_trimChars (before ++ c :: after)
  -- What is trimmed on the left ends before `b`, and what is trimmed on the right begins after `a`.
  rw [List.append_assoc] at heq
  generalize trimChars (before ++ c :: after) = word at heq ⊢
  obtain ⟨rest, rfl, -⟩ | ⟨rest, rfl, hrest⟩ := List.append_eq_append_iff.1 heq
  · exact absurd (List.mem_append_left rest hb) (not_mem_of_not_blank hleft hbblank)
  rw [List.append_cons] at hrest
  obtain ⟨last, -, rfl⟩ | ⟨last, rfl, -⟩ := List.append_eq_append_iff.1 hrest
  · exact absurd (List.mem_append_right last ha) (not_mem_of_not_blank hright hablank)
  · simp

end Trimming

/-! ## Letters -/

/-- A letter, small or capital. -/
def EitherCase (letter c : Char) : Prop := c = letter ∨ c = letter.toUpper

instance (letter c : Char) : Decidable (EitherCase letter c) :=
  inferInstanceAs (Decidable (c = letter ∨ c = letter.toUpper))

section Letters

variable {letter c : Char}

theorem isLower_iff_le : c.isLower ↔ 'a' ≤ c ∧ c ≤ 'z' :=
  Bool.and_eq_true_iff.trans (and_congr decide_eq_true_iff decide_eq_true_iff)

theorem isUpper_iff_le : c.isUpper ↔ 'A' ≤ c ∧ c ≤ 'Z' :=
  decide_eq_true_iff

theorem isLower_iff : c.isLower ↔ 97 ≤ c.toNat ∧ c.toNat ≤ 122 := by
  rw [isLower_iff_le, Char.le_def, Char.le_def, UInt32.le_iff_toNat_le, UInt32.le_iff_toNat_le]
  rfl

theorem isUpper_iff : c.isUpper ↔ 65 ≤ c.toNat ∧ c.toNat ≤ 90 := by
  rw [isUpper_iff_le, Char.le_def, Char.le_def, UInt32.le_iff_toNat_le, UInt32.le_iff_toNat_le]
  rfl

theorem toNat_toUpper (h : letter.isLower) : letter.toUpper.toNat + 32 = letter.toNat := by
  have hletter := isLower_iff.1 h
  have hle : 'a'.val ≤ letter.val ∧ letter.val ≤ 'z'.val := isLower_iff_le.1 h
  have hval : letter.val.toNat = letter.toNat := rfl
  have hback : ('A'.val - 'a'.val).toNat = 2 ^ 32 - 32 := rfl
  delta Char.toUpper
  rw [dif_pos hle]
  show (letter.val + ('A'.val - 'a'.val)).toNat + 32 = letter.toNat
  rw [UInt32.toNat_add]
  omega

theorem toNat_lowerAscii (h : c.isUpper) : (lowerAscii c).toNat = c.toNat + 32 := by
  have hc := isUpper_iff.1 h
  have hvalid : (c.toNat + 32).isValidChar := Or.inl (by omega)
  rw [lowerAscii, if_pos (isUpper_iff_le.1 h), Char.ofNat, dif_pos hvalid]
  rfl

theorem lowerAscii_of_not_isUpper (h : ¬c.isUpper) : lowerAscii c = c :=
  if_neg (mt isUpper_iff_le.2 h)

/-- The characters that fold to a small letter are the letter and its capital. -/
theorem lowerAscii_eq_iff (h : letter.isLower) : lowerAscii c = letter ↔ EitherCase letter c := by
  have hletter := isLower_iff.1 h
  have hcapital := toNat_toUpper h
  rw [EitherCase]
  by_cases hc : c.isUpper
  · have hrange := isUpper_iff.1 hc
    rw [← Char.toNat_inj, ← Char.toNat_inj, ← Char.toNat_inj, toNat_lowerAscii hc]
    omega
  · have hrange := mt isUpper_iff.2 hc
    rw [lowerAscii_of_not_isUpper hc, ← Char.toNat_inj, ← Char.toNat_inj]
    omega

theorem toNat_of_eitherCase (h : letter.isLower) (hc : EitherCase letter c) :
    65 ≤ c.toNat ∧ c.toNat ≤ 122 := by
  have hletter := isLower_iff.1 h
  have hcapital := toNat_toUpper h
  rcases hc with rfl | rfl <;> omega

theorem isBlank_of_eitherCase (h : letter.isLower) (hc : EitherCase letter c) :
    isBlank c = false := by
  have hrange := toNat_of_eitherCase h hc
  simp only [isBlank, blankRuns, List.any_cons, List.any_nil, Bool.or_false, Bool.or_eq_false_iff,
    Bool.and_eq_false_iff, decide_eq_false_iff_not]
  omega

/-- The texts that fold to a word of small letters have each of its letters in either case. -/
theorem map_lowerAscii_eq_iff {word s : List Char} (h : ∀ c ∈ word, c.isLower) :
    s.map lowerAscii = word ↔ List.Forall₂ EitherCase word s := by
  induction word generalizing s with
  | nil => simp
  | cons letter word ih =>
    rw [List.forall_mem_cons] at h
    cases s with
    | nil => simp
    | cons c s =>
      rw [List.map_cons, List.cons.injEq, List.forall₂_cons, lowerAscii_eq_iff h.1, ih h.2]

end Letters

namespace Profile

/-! ## Texts that spell a profile -/

/-- A text spells a profile : blanks, its name with letters of either case, and blanks. -/
def IsSpelledBy (p : Profile) (text : String) : Prop :=
  ∃ before word after, text.toList = before ++ word ++ after ∧ (∀ c ∈ before, isBlank c) ∧
    List.Forall₂ EitherCase p.name.toList word ∧ ∀ c ∈ after, isBlank c

variable {p q : Profile} {text : String}

theorem isLower_of_mem_name (p : Profile) : ∀ c ∈ p.name.toList, c.isLower := by
  have h : p.name.toList.all Char.isLower := by cases p <;> decide
  exact List.all_eq_true.1 h

theorem exists_letter_of_mem {word : List Char} (h : List.Forall₂ EitherCase p.name.toList word)
    {c : Char} (hc : c ∈ word) : ∃ letter, letter.isLower ∧ EitherCase letter c := by
  obtain ⟨i, hi, rfl⟩ := List.mem_iff_getElem.1 hc
  have hi' : i < p.name.toList.length := h.length_eq ▸ hi
  exact ⟨p.name.toList[i], p.isLower_of_mem_name _ (List.getElem_mem hi'), h.get hi' hi⟩

/-- A text spells a profile if and only if its name is left after trimming and folding. -/
theorem isSpelledBy_iff :
    p.IsSpelledBy text ↔ (trimChars text.toList).map lowerAscii = p.name.toList := by
  rw [map_lowerAscii_eq_iff p.isLower_of_mem_name]
  constructor
  · rintro ⟨before, word, after, heq, hbefore, hword, hafter⟩
    have hblank : ∀ c ∈ word, isBlank c = false := fun c hc => by
      obtain ⟨letter, hletter, hcase⟩ := exists_letter_of_mem hword hc
      exact isBlank_of_eitherCase hletter hcase
    rwa [heq, trimChars_append hbefore hafter, trimChars_of_not_blank hblank]
  · intro hword
    obtain ⟨before, after, heq, hbefore, hafter⟩ := exists_eq_append_trimChars text.toList
    exact ⟨before, _, after, heq, hbefore, hword, hafter⟩

/-- What is read as a profile is what spells it. -/
theorem parse_eq_ok_iff : parse text = .ok p ↔ p.IsSpelledBy text := by
  have hname : ofName? (.ofList ((trimChars text.toList).map lowerAscii)) = some p ↔
      p.IsSpelledBy text := by
    rw [ofName?_eq_some_iff, isSpelledBy_iff, ← String.toList_inj, String.toList_ofList]
  rw [← hname, parse]
  split <;> simp [*]

/-- What is refused is what spells no profile, and the refusal keeps it as it was. -/
theorem parse_eq_error_iff {e : Unknown} :
    parse text = .error e ↔ (∀ p : Profile, ¬p.IsSpelledBy text) ∧ e = ⟨text⟩ := by
  simp only [← parse_eq_ok_iff]
  rw [parse]
  split <;> simp [eq_comm]

/-- No text spells two profiles. -/
theorem IsSpelledBy.unique (hp : p.IsSpelledBy text) (hq : q.IsSpelledBy text) : p = q := by
  rw [← parse_eq_ok_iff] at hp hq
  exact Except.ok.inj (hp.symm.trans hq)

/-- Between the blanks of a text that spells a profile there are letters only. -/
theorem IsSpelledBy.exists_letter (h : p.IsSpelledBy text) {c : Char}
    (hc : c ∈ trimChars text.toList) : ∃ letter, letter.isLower ∧ EitherCase letter c :=
  exists_letter_of_mem ((map_lowerAscii_eq_iff p.isLower_of_mem_name).1 (isSpelledBy_iff.1 h)) hc

theorem parse_of_inner_blank {before after : List Char} {c : Char} (hc : isBlank c)
    (hbefore : ∃ b ∈ before, isBlank b = false) (hafter : ∃ a ∈ after, isBlank a = false)
    (htext : text.toList = before ++ c :: after) : parse text = .error ⟨text⟩ := by
  refine parse_eq_error_iff.2 ⟨fun p hp => ?_, rfl⟩
  have hmem := mem_trimChars_of_between c hbefore hafter
  obtain ⟨letter, hletter, hcase⟩ := hp.exists_letter (htext ▸ hmem)
  rw [isBlank_of_eitherCase hletter hcase] at hc
  cases hc

theorem parse_of_not_ascii {c : Char} (hc : c ∈ text.toList) (hblank : isBlank c = false)
    (hascii : 128 ≤ c.toNat) : parse text = .error ⟨text⟩ := by
  refine parse_eq_error_iff.2 ⟨fun p hp => ?_, rfl⟩
  obtain ⟨letter, hletter, hcase⟩ := hp.exists_letter (mem_trimChars_of_not_blank hc hblank)
  have hrange := toNat_of_eitherCase hletter hcase
  omega

/-! ## The variable -/

/-- A variable that spells a profile gives it, and there is nothing to tell. -/
theorem ofVariable_of_spelled (build : Build) (h : p.IsSpelledBy text) :
    ofVariable (some text) build = (p, []) := by
  rw [ofVariable, parse_eq_ok_iff.2 h]

/-- A variable that spells no profile is ignored, with one warning. -/
theorem ofVariable_of_not_spelled (build : Build) (h : ∀ p : Profile, ¬p.IsSpelledBy text) :
    ofVariable (some text) build =
      (build.profile, [.ignoredProfile variableName (Unknown.message ⟨text⟩)]) := by
  rw [ofVariable, parse_eq_error_iff.2 ⟨h, rfl⟩]

/-- A text is read as a profile if and only if it spells it, and no text spells two. Any other
text is refused with an error that keeps it as it was; one with a blank inside, or with a
character beyond ASCII that is not blank, is such a text. A variable gives the profile that it
spells, and there is nothing to tell. If it spells none it gives the profile by default, which is
active where the library is built for debugging, and all there is to tell is one warning, with the
refused text in it. -/
theorem reading_of_spelling :
    active.name = "active" ∧ disabled.name = "disabled" ∧
    (∀ (text : String) (p : Profile), parse text = .ok p ↔ p.IsSpelledBy text) ∧
    (∀ (text : String) (e : Unknown),
      parse text = .error e ↔ (∀ p : Profile, ¬p.IsSpelledBy text) ∧ e = ⟨text⟩) ∧
    (∀ (text : String) (p q : Profile), p.IsSpelledBy text → q.IsSpelledBy text → p = q) ∧
    (∀ (text : String) (before after : List Char) (c : Char),
      text.toList = before ++ c :: after → isBlank c → (∃ b ∈ before, isBlank b = false) →
        (∃ a ∈ after, isBlank a = false) → parse text = .error ⟨text⟩) ∧
    (∀ (text : String), ∀ c ∈ text.toList, isBlank c = false → 128 ≤ c.toNat →
      parse text = .error ⟨text⟩) ∧
    ∀ build : Build, (build.profile = active ↔ build = .debug) ∧
      ofVariable none build = (build.profile, []) ∧
      ∀ text : String,
        (∀ p : Profile, p.IsSpelledBy text → ofVariable (some text) build = (p, [])) ∧
        ((∀ p : Profile, ¬p.IsSpelledBy text) →
          let warning := Event.ignoredProfile variableName (Unknown.message ⟨text⟩)
          ofVariable (some text) build = (build.profile, [warning]) ∧ warning.level = .warn ∧
            warning.fields = [
              ("error", "unknown build profile \x60" ++ text ++
                "\x60, expected \x60active\x60 or \x60disabled\x60"),
              ("message", "ignoring invalid build profile"),
              ("var", "PARAM_TYPES_PROFILE")]) := by
  refine ⟨rfl, rfl, fun _ _ => parse_eq_ok_iff, fun _ _ => parse_eq_error_iff,
    fun _ _ _ => IsSpelledBy.unique, fun _ _ _ _ htext hc hbefore hafter => ?_,
    fun _ _ => parse_of_not_ascii, fun build => ⟨?_, rfl, fun _ => ⟨?_, ?_⟩⟩⟩
  · exact parse_of_inner_blank hc hbefore hafter htext
  · cases build <;> decide
  · exact fun _ => ofVariable_of_spelled build
  · exact fun h => ⟨ofVariable_of_not_spelled build h, rfl, rfl⟩

/-- A name in mixed case between blanks of several kinds, a name with a blank inside, and a name
with a letter of another alphabet. -/
theorem reading_of_spelling_of_awkward_texts :
    let padded := "\u00a0\tDisAbLed\u2003\n"
    let divided := "act ive"
    let foreign := " D\u0131sabled"
    let warning := Event.ignoredProfile variableName (Unknown.message ⟨foreign⟩)
    disabled.IsSpelledBy padded ∧ parse padded = .ok disabled ∧
      ofVariable (some padded) = (disabled, []) ∧
      parse divided = .error ⟨divided⟩ ∧ parse foreign = .error ⟨foreign⟩ ∧
      ofVariable (some foreign) .optimized = (disabled, [warning]) ∧ warning.level = .warn ∧
      warning.fields.lookup "error" = some ("unknown build profile \x60 D\u0131sabled\x60, " ++
        "expected \x60active\x60 or \x60disabled\x60") := by
  intro padded divided foreign warning
  obtain ⟨-, -, hok, herror, -, hinner, hbeyond, hvariable⟩ := reading_of_spelling
  have hpadded : disabled.IsSpelledBy padded :=
    ⟨['\u00a0', '\t'], "DisAbLed".toList, ['\u2003', '\n'], by decide,
      List.all_eq_true.1 (by decide), by decide, List.all_eq_true.1 (by decide)⟩
  have hdivided : parse divided = .error ⟨divided⟩ :=
    hinner divided ['a', 'c', 't'] ['i', 'v', 'e'] ' ' (by decide) (by decide)
      ⟨'a', by decide, by decide⟩ ⟨'e', by decide, by decide⟩
  have hforeign : parse foreign = .error ⟨foreign⟩ :=
    hbeyond foreign '\u0131' (by decide) (by decide) (by decide)
  have hunspelled := ((herror foreign ⟨foreign⟩).1 hforeign).1
  obtain ⟨htold, hlevel, hfields⟩ := ((hvariable .optimized).2.2 foreign).2 hunspelled
  refine ⟨hpadded, (hok padded disabled).2 hpadded, ((hvariable .debug).2.2 padded).1 _ hpadded,
    hdivided, hforeign, htold, hlevel, ?_⟩
  rw [hfields]
  decide

end Profile

end CallGuard
