import CallGuard.Guard.Config
import CallGuard.Proofs.Alignment
import Mathlib.Data.Nat.Find

/-!
# Checkers that make a guard

A checker that takes the arguments that remain is misplaced if another checker stands behind
it (`Misplaced`). A list of checkers makes a signature if and only if none of them is
(`Signature.exists_new?_eq_error_iff`), and then the signature has the list as it is. If some
are, the first of them is reported (`Signature.new?_eq_error_iff`). The search looks at all
checkers but the last, and `findIdx?_dropLast_eq_some_iff` says so of positions in the whole
list.

A configuration leaves this to the signature if its guards check anything, whichever sort of
guard is built, with a sink or without; otherwise it does not look at the checkers, and the
guard that it builds enters none and has nothing to tell (`Config.result_of_checkers`).
-/

namespace CallGuard

/-! ## Misplaced checkers -/

/-- The checker at a position takes the arguments that remain, although another stands behind. -/
def Misplaced (checkers : List Checker) (i : Nat) : Prop :=
  i + 1 < checkers.length ∧ checkers[i]?.any Checker.isRest

instance (checkers : List Checker) : DecidablePred (Misplaced checkers) :=
  fun _ => inferInstanceAs (Decidable (_ ∧ _))

theorem misplaced_iff (checkers : List Checker) (i : Nat) :
    Misplaced checkers i ↔
      ∃ h : i < checkers.dropLast.length, (checkers.dropLast[i]).isRest := by
  have hlength : i < checkers.dropLast.length ↔ i + 1 < checkers.length := by
    rw [List.length_dropLast]
    omega
  constructor
  · rintro ⟨hlt, hrest⟩
    refine ⟨hlength.2 hlt, ?_⟩
    rw [List.getElem?_eq_getElem (by omega)] at hrest
    rwa [List.getElem_dropLast]
  · rintro ⟨hlt, hrest⟩
    have hlt' := hlength.1 hlt
    refine ⟨hlt', ?_⟩
    rw [List.getElem_dropLast] at hrest
    rwa [List.getElem?_eq_getElem (by omega)]

/-- What is found among all checkers but the last is the first that is misplaced. -/
theorem findIdx?_dropLast_eq_some_iff (checkers : List Checker) (i : Nat) :
    checkers.dropLast.findIdx? Checker.isRest = some i ↔
      Misplaced checkers i ∧ ∀ j < i, ¬Misplaced checkers j := by
  rw [List.findIdx?_eq_some_iff_getElem, misplaced_iff]
  constructor
  · rintro ⟨hlt, hrest, hearlier⟩
    refine ⟨⟨hlt, hrest⟩, fun j hj hmis => ?_⟩
    obtain ⟨hjlt, hjrest⟩ := (misplaced_iff checkers j).1 hmis
    exact hearlier j hj hjrest
  · rintro ⟨⟨hlt, hrest⟩, hearlier⟩
    refine ⟨hlt, hrest, fun j hj hjrest => ?_⟩
    exact hearlier j hj ((misplaced_iff checkers j).2 ⟨Nat.lt_trans hj hlt, hjrest⟩)

namespace Signature

variable {method : String} {checkers : List Checker}

/-- A list is refused with the position of the first checker that is misplaced. -/
theorem new?_eq_error_iff {e : SignatureError} :
    new? method checkers = .error e ↔
      ∃ i, e = .restNotLast method i ∧ Misplaced checkers i ∧ ∀ j < i, ¬Misplaced checkers j := by
  unfold new?
  split
  · rename_i position h
    constructor
    · rintro ⟨⟩
      exact ⟨position, rfl, (findIdx?_dropLast_eq_some_iff checkers position).1 h⟩
    · rintro ⟨i, rfl, hi⟩
      obtain rfl : position = i :=
        Option.some.inj (h.symm.trans ((findIdx?_dropLast_eq_some_iff checkers i).2 hi))
      rfl
  · rename_i h
    constructor
    · intro he
      cases he
    · rintro ⟨i, rfl, hi⟩
      cases h.symm.trans ((findIdx?_dropLast_eq_some_iff checkers i).2 hi)

/-- A list is refused if and only if one of its checkers is misplaced. -/
theorem exists_new?_eq_error_iff :
    (∃ e, new? method checkers = .error e) ↔ ∃ i, Misplaced checkers i := by
  constructor
  · rintro ⟨e, he⟩
    obtain ⟨i, -, hi, -⟩ := new?_eq_error_iff.1 he
    exact ⟨i, hi⟩
  · intro h
    exact ⟨_, new?_eq_error_iff.2
      ⟨Nat.find h, rfl, Nat.find_spec h, fun _ hj => Nat.find_min h hj⟩⟩

/-- What is not refused makes a signature. -/
theorem exists_new?_eq_ok_of_not_misplaced (h : ∀ i, ¬Misplaced checkers i) :
    ∃ s, new? method checkers = .ok s := by
  cases hs : new? method checkers with
  | ok s => exact ⟨s, rfl⟩
  | error e =>
    obtain ⟨i, hi⟩ := exists_new?_eq_error_iff.1 ⟨e, hs⟩
    exact absurd hi (h i)

theorem not_misplaced_of_new?_eq_ok {s : Signature} (h : new? method checkers = .ok s) (i : Nat) :
    ¬Misplaced checkers i := by
  intro hi
  obtain ⟨e, he⟩ := exists_new?_eq_error_iff.2 ⟨i, hi⟩
  cases h.symm.trans he

/-- A list of checkers is accepted if and only if none of them is misplaced. -/
theorem exists_new?_eq_ok_iff :
    (∃ s, new? method checkers = .ok s) ↔ ∀ i, ¬Misplaced checkers i :=
  ⟨fun ⟨_, hs⟩ => not_misplaced_of_new?_eq_ok hs, exists_new?_eq_ok_of_not_misplaced⟩

end Signature

/-! ## Building guards -/

namespace Config

variable {config : Config}

section

variable {α : Type} {off : α} {wrap : Signature → α} {method : String} {checkers : List Checker}

theorem result_build_of_isActive (h : config.profile.isActive) :
    (config.build off wrap method checkers).result = (Signature.new? method checkers).map wrap := by
  rw [build, if_pos h]

theorem result_build_of_not_isActive (h : config.profile.isActive = false) :
    (config.build off wrap method checkers).result = .ok off := by
  rw [build, if_neg (by simp [h])]

/-- Where something is checked, no guard is built if and only if there is no signature, and for
the same reason. -/
theorem result_build_eq_error_iff (h : config.profile.isActive) {e : SignatureError} :
    (config.build off wrap method checkers).result = .error e ↔
      Signature.new? method checkers = .error e := by
  rw [result_build_of_isActive h]
  cases Signature.new? method checkers <;> simp [Except.map]

end

/-- A list of checkers is refused for a method if and only if a checker that is not the last
takes the arguments that remain, and the error names the method and the first such position.
Otherwise the signature has the list as it is, and takes the arguments that remain if and only
if its last checker does. Where something is checked, both sorts of guard are refused for these
lists, with this error, and for no others, and what is built is the guard for the signature.
Where nothing is checked no list is refused, every call passes or is answered with no failures,
and neither a checker nor the sink hears of it. -/
theorem result_of_checkers (method : String) (checkers : List Checker) :
    ((∃ e, Signature.new? method checkers = .error e) ↔ ∃ i, Misplaced checkers i) ∧
    (∀ e, Signature.new? method checkers = .error e ↔
      ∃ i, e = .restNotLast method i ∧ Misplaced checkers i ∧ ∀ j < i, ¬Misplaced checkers j) ∧
    ((∀ i, ¬Misplaced checkers i) → ∃ s, Signature.new? method checkers = .ok s) ∧
    (∀ s, Signature.new? method checkers = .ok s →
      s.method = method ∧ s.checkers = checkers ∧ (∀ i, ¬Misplaced s.checkers i) ∧
      (s.hasRest ↔ ∃ c, checkers.getLast? = some c ∧ c.isRest)) ∧
    (∀ config config' : Config, config.profile.isActive → config'.profile.isActive →
      (∀ e, ((config.strict method checkers).result = .error e ↔
          Signature.new? method checkers = .error e) ∧
        ((config'.logging method checkers).result = .error e ↔
          (config.strict method checkers).result = .error e)) ∧
      ∀ s, Signature.new? method checkers = .ok s →
        (config.strict method checkers).result = .ok (.ofSignature s) ∧
        (config'.logging method checkers).result = .ok (.ofSignature s config'.hasSink)) ∧
    ∀ config : Config, config.profile.isActive = false →
      ∃ strict logging, (config.strict method checkers).result = .ok strict ∧
        (config.logging method checkers).result = .ok logging ∧
        ∀ args, strict.outcome args = .pass ∧ strict.calls args = [] ∧
          logging.failures args = [] ∧ (logging.run args).moments = [] := by
  refine ⟨Signature.exists_new?_eq_error_iff, fun e => Signature.new?_eq_error_iff,
    Signature.exists_new?_eq_ok_of_not_misplaced, fun s hs => ?_,
    fun config config' h h' => ⟨fun e => ?_, fun s hs => ⟨?_, ?_⟩⟩, fun config h => ?_⟩
  · obtain ⟨hmethod, hcheckers⟩ := Signature.new?_eq_ok_iff.1 hs
    refine ⟨hmethod, hcheckers, hcheckers ▸ Signature.not_misplaced_of_new?_eq_ok hs, ?_⟩
    rw [Signature.hasRest, hcheckers, Option.any_eq_true]
  · have hstrict : (config.strict method checkers).result = .error e ↔ _ :=
      result_build_eq_error_iff h
    exact ⟨hstrict, (result_build_eq_error_iff h').trans hstrict.symm⟩
  · exact (result_build_of_isActive h).trans (by rw [hs]; rfl)
  · exact (result_build_of_isActive h').trans (by rw [hs]; rfl)
  · exact ⟨.off, .off, result_build_of_not_isActive h, result_build_of_not_isActive h,
      fun args => ⟨rfl, rfl, rfl, rfl⟩⟩

/-- Of two misplaced checkers the first is reported, under modifiers and behind others, unless
nothing is checked. -/
theorem result_of_misplaced_checkers :
    let checkers := [.any, .nullable (.rest (.kindOf .string)), .required (.rest .any),
      .arrayOf (.rest .any)]
    let e := SignatureError.restNotLast "save" 1
    Misplaced checkers 1 ∧ Misplaced checkers 2 ∧ ¬Misplaced checkers 3 ∧
      ((⟨.active, true⟩ : Config).strict "save" checkers).result = .error e ∧
      ((⟨.active, false⟩ : Config).logging "save" checkers).result = .error e ∧
      ∃ strict, ((⟨.disabled, true⟩ : Config).strict "save" checkers).result = .ok strict ∧
        strict.outcome [.undefined, .bool true] = .pass := by
  intro checkers e
  obtain ⟨-, hrefused, -, -, hactive, hdisabled⟩ := result_of_checkers "save" checkers
  have he : Signature.new? "save" checkers = .error e :=
    (hrefused e).2 ⟨1, rfl, by decide, by decide⟩
  obtain ⟨hstrict, hlogging⟩ := (hactive ⟨.active, true⟩ ⟨.active, false⟩ rfl rfl).1 e
  obtain ⟨strict, logging, hbuilt, -, hpass⟩ := hdisabled ⟨.disabled, true⟩ rfl
  exact ⟨by decide, by decide, by decide, hstrict.2 he, hlogging.2 (hstrict.2 he), strict, hbuilt,
    (hpass _).1⟩

end Config

end CallGuard
