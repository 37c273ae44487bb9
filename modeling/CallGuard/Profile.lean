import CallGuard.Event
import CallGuard.Json.Basic
import CallGuard.Text.Blank

/-!
# Profiles

A profile says whether guards check anything. It is read from a text that names it,
in letters of either case and with blanks around it; any other text is refused with
an error that keeps it as it was.

It can be taken from a variable of the environment. A variable that is not set or
names no profile leaves the profile as it is by default, and the second is worth a
warning. What it is by default depends on how the library is built.

A JSON document stands for a profile if it is its name, exactly as it is written, or an
object whose only member has that name and is null; `ofJson?_eq_some_iff` says so.
-/

namespace CallGuard

/-- Whether guards check anything. -/
inductive Profile
  /-- They do. -/
  | active
  /-- They do not. -/
  | disabled
  deriving DecidableEq

/-- How the library is built. -/
inductive Build
  /-- For debugging. -/
  | debug
  /-- To be fast. -/
  | optimized
  deriving DecidableEq

/-- The profile where none is given. -/
def Build.profile : Build → Profile
  | debug => .active
  | optimized => .disabled

namespace Profile

/-- The profile where none is given, if the library is built for debugging. -/
def default : Profile := Build.debug.profile

instance : Inhabited Profile := ⟨default⟩

/-- Whether guards check anything. -/
def isActive : Profile → Bool
  | active => true
  | disabled => false

/-- The name of a profile. -/
def name : Profile → String
  | active => "active"
  | disabled => "disabled"

/-- The profile with exactly a name. -/
def ofName? (name : String) : Option Profile :=
  if name = active.name then some active
  else if name = disabled.name then some disabled
  else none

/-- A text that names no profile. -/
structure Unknown where
  /-- The text, as it was. -/
  text : String
  deriving DecidableEq

/-- What is wrong with a text that names no profile. -/
def errorMessage (text : String) : String :=
  "unknown build profile \x60" ++ text ++ "\x60, expected \x60active\x60 or \x60disabled\x60"

/-- What is wrong, in words. -/
def Unknown.message (e : Unknown) : String := errorMessage e.text

/-- The profile that a text names, whatever the case of its letters and the blanks around it. -/
def parse (text : String) : Except Unknown Profile :=
  match ofName? (.ofList ((trimChars text.toList).map lowerAscii)) with
  | some profile => .ok profile
  | none => .error ⟨text⟩

/-- The profile that a text names, if it names one. -/
def ofText? (text : String) : Option Profile := (parse text).toOption

/-- A profile as a JSON document. -/
def toJson (p : Profile) : Json := .string p.name

/-- The profile that a JSON document stands for : by its name, or by the name of the only member
of an object, which is null. -/
def ofJson? : Json → Option Profile
  | .string name => ofName? name
  | .object members =>
    match members.toList with
    | [(name, .null)] => ofName? name
    | _ => none
  | _ => none

/-- The variable of the environment that may hold a profile. -/
def variableName : String := "PARAM_TYPES_PROFILE"

/-- The profile from the text that the variable holds, if it holds one, and what there is to
tell. -/
def ofVariable (content? : Option String) (build : Build := .debug) : Profile × List Event :=
  match content? with
  | none => (build.profile, [])
  | some text =>
    match parse text with
    | .ok profile => (profile, [])
    | .error unknown => (build.profile, [.ignoredProfile variableName unknown.message])

/-- A name reads back. -/
theorem ofText?_name (p : Profile) : ofText? p.name = some p := by
  cases p <;> decide

/-- A text is exactly the name of a profile, or names none. -/
theorem ofName?_eq_some_iff {name : String} {p : Profile} :
    ofName? name = some p ↔ name = p.name := by
  constructor
  · intro h
    unfold ofName? at h
    split at h
    · cases h
      assumption
    · split at h
      · cases h
        assumption
      · cases h
  · rintro rfl
    cases p <;> decide

/-- The documents that stand for a profile. -/
theorem ofJson?_eq_some_iff {j : Json} {p : Profile} :
    ofJson? j = some p ↔
      j = .string p.name ∨ ∃ members, j = .object members ∧ members.toList = [(p.name, .null)] := by
  constructor
  · intro h
    unfold ofJson? at h
    split at h
    · exact Or.inl (congrArg Json.string (ofName?_eq_some_iff.1 h))
    · rename_i members
      split at h
      · rename_i name hm
        exact Or.inr ⟨members, rfl, ofName?_eq_some_iff.1 h ▸ hm⟩
      · cases h
    · cases h
  · rintro (rfl | ⟨members, rfl, hm⟩)
    · exact ofName?_eq_some_iff.2 rfl
    · rw [ofJson?, hm]
      exact ofName?_eq_some_iff.2 rfl

/-- A document that is written reads back. -/
@[simp] theorem ofJson?_toJson (p : Profile) : ofJson? p.toJson = some p :=
  ofJson?_eq_some_iff.2 (Or.inl rfl)

end Profile

end CallGuard
