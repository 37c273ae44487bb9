import CallGuard.Proofs.Conformance

/-!
# Blame

A check that fails points at a part of the value and at a checker inside. `LeadsTo` is
the way down : `LeadsTo c v path d w` says that `path` leads from `c` and `v` to `d` and
`w`, that each of its steps is one that `c` follows, and that whatever stands before a
step passes. `Refuses d w cause` says that `d` refuses `w` for a cause of its own, and
not for a part of `w`.

A check fails with a failure if and only if a path leads to a refusal, and the failure is
that of the cause at the end of the path (`IsStandard.check_eq_fail_iff`). One direction
finds the path by induction over the checker : the failure is the checker's own or that of
the first part that fails (`outcome_eq_fail_iff`). The other is by induction over the way
down.
-/

namespace CallGuard

/-! ## Paths through a value -/

/-- The part of a value at the end of a path. -/
def Value.at? (v : Value) : List Step → Option Value
  | [] => some v
  | step :: path =>
    match v, step with
    | .array items, .element i => (items[i]?).bind (·.at? path)
    | .object _ p, .property key => (p.get? key).bind (·.at? path)
    | _, _ => none

namespace Checker

/-! ## Refusals -/

/-- A checker refuses a value for a cause of its own. -/
inductive Refuses : Checker → Value → Cause → Prop
  | required {c : Checker} {v : Value} : v.isNullish → Refuses (required c) v .required
  | kindOf {expected : Kind} {v : Value} : v.isNullish = false → v.kind ≠ expected →
    Refuses (kindOf expected) v (.typeMismatch expected v.kind)
  | instanceOf {expected : Class} {v : Value} : v.isNullish = false →
    v.isInstanceOf expected = false → Refuses (instanceOf expected) v (.notInstance expected)
  | oneOf {allowed : List Value} {v : Value} : v.isNullish = false →
    (∀ w ∈ allowed, w.sameValue v = false) →
      Refuses (oneOf allowed) v (.notOneOf v (allowedText allowed))
  | arrayOf {c : Checker} {v : Value} : v.isNullish = false → (∀ items, v ≠ .array items) →
    Refuses (arrayOf c) v (.typeMismatch .array v.kind)
  | objectOf {c : Checker} {v : Value} : v.isNullish = false → (∀ class? p, v ≠ .object class? p) →
    Refuses (objectOf c) v (.typeMismatch .object v.kind)
  | shape {fields : Properties Checker} {v : Value} : v.isNullish = false →
    (∀ class? p, v ≠ .object class? p) → Refuses (shape fields) v (.typeMismatch .object v.kind)
  /-- Every alternative refuses the value, for itself or for a part. -/
  | oneOfType {cs : List Checker} {v : Value} : v.isNullish = false →
    (∀ c ∈ cs, ∀ s, (c.check v s).passes = false) →
      Refuses (oneOfType cs) v (.noMatchingType v cs.length)

theorem isSome_array?_eq_false_iff (v : Value) :
    v.array?.isSome = false ↔ ∀ items, v ≠ .array items := by
  rw [← Bool.not_eq_true, isSome_array?_iff, not_exists]

theorem isSome_object?_eq_false_iff (v : Value) :
    v.object?.isSome = false ↔ ∀ class? p, v ≠ .object class? p := by
  rw [← Bool.not_eq_true, isSome_object?_iff]
  simp only [not_exists, ne_eq]

theorem ofBool_eq_fail_iff {b : Bool} {s : Site} {cause : Cause} {f : Failure} :
    Outcome.ofBool b s cause = .fail f ↔ b = false ∧ f = cause.failure s := by
  cases b <;> simp [Outcome.ofBool, eq_comm]

theorem Refuses.own_eq {c : Checker} {v : Value} {cause : Cause} (h : c.Refuses v cause)
    (s : Site) : c.own .check v s = .fail (cause.failure s) := by
  cases h with
  | required hv => exact ofBool_eq_fail_iff.2 ⟨by simp [hv], rfl⟩
  | kindOf hv hk =>
    rw [own_check_of_isPlain rfl, hv]
    exact ofBool_eq_fail_iff.2 ⟨by simpa using hk, rfl⟩
  | instanceOf hv hi =>
    rw [own_check_of_isPlain rfl, hv]
    exact ofBool_eq_fail_iff.2 ⟨hi, rfl⟩
  | oneOf hv hw =>
    rw [own_check_of_isPlain rfl, hv]
    exact ofBool_eq_fail_iff.2 ⟨by simpa [isAllowed] using hw, rfl⟩
  | arrayOf hv ha =>
    rw [own_check_of_isPlain rfl, hv]
    exact ofBool_eq_fail_iff.2 ⟨(isSome_array?_eq_false_iff _).2 ha, rfl⟩
  | objectOf hv ho | shape hv ho =>
    rw [own_check_of_isPlain rfl, hv]
    exact ofBool_eq_fail_iff.2 ⟨(isSome_object?_eq_false_iff _).2 ho, rfl⟩
  | oneOfType hv hc =>
    rw [own_check_of_isPlain rfl, hv]
    refine ofBool_eq_fail_iff.2 ⟨?_, rfl⟩
    rw [List.any_eq_false]
    exact fun c hm => by simp [hc c hm s]

/-- What a checker refuses itself it refuses at every site, with the failure of the cause. -/
theorem Refuses.check_eq {c : Checker} {v : Value} {cause : Cause} (h : c.Refuses v cause)
    (s : Site) : c.check v s = .fail (cause.failure s) :=
  (outcome_eq_fail_iff c .check v s _).2 (Or.inl (h.own_eq s))

/-- A failure of a checker's own is a refusal. -/
theorem IsStandard.refuses_of_own {c : Checker} (hc : c.IsStandard) {v : Value} {s : Site}
    {f : Failure} (h : c.own .check v s = .fail f) :
    ∃ cause, c.Refuses v cause ∧ f = cause.failure s := by
  by_cases hp : c.isPlain
  · rw [own_check_of_isPlain hp] at h
    by_cases hv : v.isNullish
    · simp [hv] at h
    have hv' : v.isNullish = false := by simpa using hv
    rw [if_neg hv] at h
    cases hc with
    | kindOf expected =>
      obtain ⟨hk, rfl⟩ := ofBool_eq_fail_iff.1 h
      exact ⟨_, .kindOf hv' (by simpa using hk), rfl⟩
    | any => cases h
    | instanceOf expected =>
      obtain ⟨hi, rfl⟩ := ofBool_eq_fail_iff.1 h
      exact ⟨_, .instanceOf hv' hi, rfl⟩
    | oneOf allowed =>
      obtain ⟨hw, rfl⟩ := ofBool_eq_fail_iff.1 h
      exact ⟨_, .oneOf hv' (by simpa [isAllowed] using hw), rfl⟩
    | arrayOf _ =>
      obtain ⟨ha, rfl⟩ := ofBool_eq_fail_iff.1 h
      exact ⟨_, .arrayOf hv' ((isSome_array?_eq_false_iff v).1 ha), rfl⟩
    | objectOf _ =>
      obtain ⟨ho, rfl⟩ := ofBool_eq_fail_iff.1 h
      exact ⟨_, .objectOf hv' ((isSome_object?_eq_false_iff v).1 ho), rfl⟩
    | shape _ =>
      obtain ⟨ho, rfl⟩ := ofBool_eq_fail_iff.1 h
      exact ⟨_, .shape hv' ((isSome_object?_eq_false_iff v).1 ho), rfl⟩
    | oneOfType hcs =>
      obtain ⟨ho, rfl⟩ := ofBool_eq_fail_iff.1 h
      refine ⟨_, .oneOfType hv' fun c hm t => ?_, rfl⟩
      rw [← Bool.not_eq_true, (hcs c hm).passes_check_congr v t s]
      exact List.any_eq_false.1 ho c hm
    | required _ | nullable _ | rest _ => cases hp
  · cases hc with
    | required _ =>
      obtain ⟨hv, rfl⟩ := ofBool_eq_fail_iff.1 h
      exact ⟨_, .required (by simpa using hv), rfl⟩
    | nullable _ | rest _ => simp [own, test] at h
    | _ => exact absurd rfl hp

/-! ## The way down -/

/-- The path leads from the checker and the value to a checker inside and a part, and whatever
stands before one of its steps passes. -/
inductive LeadsTo : Checker → Value → List Step → Checker → Value → Prop
  | here {c : Checker} {v : Value} : LeadsTo c v [] c v
  | required {c d : Checker} {v w : Value} {path : List Step} : v.isNullish = false →
    LeadsTo c v path d w → LeadsTo (required c) v path d w
  | nullable {c d : Checker} {v w : Value} {path : List Step} : v.isNullish = false →
    LeadsTo c v path d w → LeadsTo (nullable c) v path d w
  | rest {c d : Checker} {v w : Value} {path : List Step} :
    LeadsTo c v path d w → LeadsTo (rest c) v path d w
  | element {c d : Checker} {before after : List Value} {u w : Value} {path : List Step} :
    (∀ x ∈ before, ∀ s, (c.check x s).passes) → LeadsTo c u path d w →
      LeadsTo (arrayOf c) (.array (before ++ u :: after)) (.element before.length :: path) d w
  | property {c d : Checker} {class? : Option Class} {p : Properties Value}
    {before after : List (String × Value)} {key : String} {u w : Value} {path : List Step} :
    p.toList = before ++ (key, u) :: after →
      (∀ x ∈ before, ∀ s, (c.check x.2 s).passes) → LeadsTo c u path d w →
        LeadsTo (objectOf c) (.object class? p) (.property key :: path) d w
  | field {fields : Properties Checker} {c d : Checker} {class? : Option Class}
    {p : Properties Value} {before after : List (String × Value)} {key : String} {u w : Value}
    {path : List Step} :
    p.toList = before ++ (key, u) :: after → fields.get? key = some c →
      (∀ x ∈ before, ∀ b, fields.get? x.1 = some b → ∀ s, (b.check x.2 s).passes) →
        LeadsTo c u path d w →
          LeadsTo (shape fields) (.object class? p) (.property key :: path) d w

theorem LeadsTo.at?_eq {c d : Checker} {v w : Value} {path : List Step}
    (h : c.LeadsTo v path d w) : v.at? path = some w := by
  induction h with
  | here => rfl
  | required _ _ ih | nullable _ _ ih | rest _ ih => exact ih
  | element _ _ ih => simpa [Value.at?] using ih
  | @property _ _ class? p before after key u _ _ hp _ _ ih =>
    have hu : p.get? key = some u := p.mem_toList_iff.1 (by simp [hp])
    simpa [Value.at?, hu] using ih
  | @field _ _ _ class? p before after key u _ _ hp _ _ _ ih =>
    have hu : p.get? key = some u := p.mem_toList_iff.1 (by simp [hp])
    simpa [Value.at?, hu] using ih

/-- What fails at the end of a path fails the check with the same failure. -/
theorem LeadsTo.check_eq {c d : Checker} {v w : Value} {path : List Step}
    (h : c.LeadsTo v path d w) {s : Site} {f : Failure}
    (hf : d.check w (s.descend path) = .fail f) : c.check v s = .fail f := by
  induction h generalizing s with
  | here => exact hf
  | required hv _ ih => simpa [check_required, hv] using ih hf
  | nullable hv _ ih => simpa [check_nullable, hv] using ih hf
  | rest _ ih => simpa using ih hf
  | @element c _ before after u _ path hb _ ih =>
    have hparts : (arrayOf c).parts .check (.array (before ++ u :: after)) =
        before.zipIdx.map (fun x => ⟨[.element x.2], c, .check, x.1⟩) ++
          ⟨[.element before.length], c, .check, u⟩ ::
            (after.zipIdx (before.length + 1)).map fun x => ⟨[.element x.2], c, .check, x.1⟩ := by
      simp [parts, List.zipIdx_append]
    refine (outcome_eq_fail_iff _ .check _ s f).2 (Or.inr ⟨rfl, _, _, _, hparts, ?_, ih hf⟩)
    intro q hq
    obtain ⟨x, hx, rfl⟩ := List.mem_map.1 hq
    exact hb x.1 (List.fst_mem_of_mem_zipIdx hx) _
  | @property c _ class? p before after key u _ _ hp hb _ ih =>
    have hparts : (objectOf c).parts .check (.object class? p) =
        before.map (fun x => ⟨[.property x.1], c, .check, x.2⟩) ++
          ⟨[.property key], c, .check, u⟩ ::
            after.map fun x => ⟨[.property x.1], c, .check, x.2⟩ := by
      simp [parts, hp]
    refine (outcome_eq_fail_iff _ .check _ s f).2 (Or.inr ⟨rfl, _, _, _, hparts, ?_, ih hf⟩)
    intro q hq
    obtain ⟨x, hx, rfl⟩ := List.mem_map.1 hq
    exact hb x hx _
  | @field fields c _ class? p before after key u _ _ hp hc hb _ ih =>
    have hparts : (shape fields).parts .check (.object class? p) =
        (Behaviour.bound fields.toList before).map
            (fun b => ⟨[.property b.1], b.2.2, .check, b.2.1⟩) ++
          ⟨[.property key], c, .check, u⟩ :: (Behaviour.bound fields.toList after).map
            fun b => ⟨[.property b.1], b.2.2, .check, b.2.1⟩ := by
      have hc' : fields.toList.lookup key = some c := hc
      simp [parts, hp, Behaviour.bound, hc']
    refine (outcome_eq_fail_iff _ .check _ s f).2 (Or.inr ⟨rfl, _, _, _, hparts, ?_, ih hf⟩)
    intro q hq
    obtain ⟨⟨key', x, b⟩, hx, rfl⟩ := List.mem_map.1 hq
    obtain ⟨hx, hb'⟩ := mem_bound_iff.1 hx
    exact hb (key', x) hx b hb' _

/-! ## What stands before a part -/

theorem parts_arrayOf_split {c : Checker} {items : List Value} {before after : List Part} {p : Part}
    (h : (arrayOf c).parts .check (.array items) = before ++ p :: after) :
    ∃ pre u post, items = pre ++ u :: post ∧ p = ⟨[.element pre.length], c, .check, u⟩ ∧
      ∀ x ∈ pre, ∃ i, ⟨[.element i], c, .check, x⟩ ∈ before := by
  obtain ⟨l, r, hl, rfl, hr⟩ := List.map_eq_append_iff.1 h
  obtain ⟨x, r', rfl, rfl, rfl⟩ := List.map_eq_cons_iff.1 hr
  obtain ⟨pre, post, rfl, rfl, hpost⟩ := List.zipIdx_eq_append_iff.1 hl
  obtain ⟨u, post', rfl, rfl, rfl⟩ := List.zipIdx_eq_cons_iff.1 hpost.symm
  refine ⟨pre, u, post', rfl, by simp, fun x hx => ?_⟩
  obtain ⟨i, hi⟩ := List.getElem?_of_mem hx
  exact ⟨i, List.mem_map_of_mem (List.mk_mem_zipIdx_iff_getElem?.2 hi)⟩

theorem parts_objectOf_split {c : Checker} {class? : Option Class} {properties : Properties Value}
    {before after : List Part} {p : Part}
    (h : (objectOf c).parts .check (.object class? properties) = before ++ p :: after) :
    ∃ pre key u post, properties.toList = pre ++ (key, u) :: post ∧
      p = ⟨[.property key], c, .check, u⟩ ∧
        ∀ x ∈ pre, ⟨[.property x.1], c, .check, x.2⟩ ∈ before := by
  obtain ⟨pre, r, hl, rfl, hr⟩ := List.map_eq_append_iff.1 h
  obtain ⟨⟨key, u⟩, post, rfl, rfl, rfl⟩ := List.map_eq_cons_iff.1 hr
  exact ⟨pre, key, u, post, hl, rfl, fun x hx => List.mem_map_of_mem hx⟩

/-- A property that stands before has no checker, or its check is made before. -/
theorem parts_shape_split {fields : Properties Checker} {class? : Option Class}
    {properties : Properties Value} {before after : List Part} {p : Part}
    (h : (shape fields).parts .check (.object class? properties) = before ++ p :: after) :
    ∃ pre key u d post, properties.toList = pre ++ (key, u) :: post ∧ fields.get? key = some d ∧
      p = ⟨[.property key], d, .check, u⟩ ∧ ∀ x ∈ pre, ∀ b, fields.get? x.1 = some b →
        ⟨[.property x.1], b, .check, x.2⟩ ∈ before := by
  obtain ⟨l, r, hl, rfl, hr⟩ := List.map_eq_append_iff.1 h
  obtain ⟨b, r', rfl, rfl, rfl⟩ := List.map_eq_cons_iff.1 hr
  obtain ⟨pre, post, hpre, rfl, hpost⟩ := List.filterMap_eq_append_iff.1 hl
  obtain ⟨pre', ⟨key, u⟩, post', rfl, hskip, hb, rfl⟩ := List.filterMap_eq_cons_iff.1 hpost
  obtain ⟨d, hd, rfl⟩ := Option.map_eq_some_iff.1 hb
  refine ⟨pre ++ pre', key, u, d, post', by simpa using hpre, hd, rfl, fun x hx b hb => ?_⟩
  rcases List.mem_append.1 hx with hx | hx
  · have hmem : (x.1, x.2, b) ∈ Behaviour.bound fields.toList pre := mem_bound_iff.2 ⟨hx, hb⟩
    exact List.mem_map_of_mem hmem
  · have hskip' := hskip x hx
    simp [show fields.toList.lookup x.1 = some b from hb] at hskip'

/-- A path can be begun at a part if the checker does not refuse the value itself and the parts
before pass. -/
theorem IsStandard.leadsTo_of_parts {c : Checker} (hc : c.IsStandard) {v : Value} {s : Site}
    {before after : List Part} {p : Part} (hown : (c.own .check v s).passes)
    (hparts : c.parts .check v = before ++ p :: after)
    (hbefore : ∀ q ∈ before, (q.outcome s).passes) :
    p.entry = .check ∧ ∀ {path d w}, p.checker.LeadsTo p.value path d w →
      c.LeadsTo v (p.path ++ path) d w := by
  have hp : p ∈ c.parts .check v := by simp [hparts]
  cases hc with
  | required hc =>
    obtain rfl := List.mem_singleton.1 hp
    exact ⟨rfl, fun h => .required (by simpa [own] using hown) h⟩
  | nullable hc =>
    by_cases hv : v.isNullish
    · simp [parts, hv] at hp
    · obtain rfl : p = ⟨[], _, .check, v⟩ := by simpa [parts, hv] using hp
      exact ⟨rfl, fun h => .nullable (by simpa using hv) h⟩
  | rest hc =>
    obtain rfl := List.mem_singleton.1 hp
    exact ⟨rfl, .rest⟩
  | arrayOf hc =>
    cases v with
    | array items =>
      obtain ⟨pre, u, post, rfl, rfl, hpre⟩ := parts_arrayOf_split hparts
      refine ⟨rfl, fun h => .element (fun x hx t => ?_) h⟩
      obtain ⟨i, hi⟩ := hpre x hx
      exact (hc.passes_check_congr x _ t).1 (hbefore _ hi)
    | _ => simp [parts] at hp
  | objectOf hc =>
    cases v with
    | object class? properties =>
      obtain ⟨pre, key, u, post, hl, rfl, hpre⟩ := parts_objectOf_split hparts
      refine ⟨rfl, fun h => .property hl (fun x hx t => ?_) h⟩
      exact (hc.passes_check_congr x.2 _ t).1 (hbefore _ (hpre x hx))
    | _ => simp [parts] at hp
  | shape hc =>
    cases v with
    | object class? properties =>
      obtain ⟨pre, key, u, d, post, hl, hd, rfl, hpre⟩ := parts_shape_split hparts
      refine ⟨rfl, fun h => .field hl hd (fun x hx b hb t => ?_) h⟩
      have hb' : b.IsStandard := hc (x.1, b) ((Properties.mem_toList_iff _).2 hb)
      exact (hb'.passes_check_congr x.2 _ t).1 (hbefore _ (hpre x hx b hb))
    | _ => simp [parts] at hp
  | _ => simp [parts] at hp

/-- A check that fails leads to a refusal, whose failure it ends in. -/
theorem IsStandard.exists_leadsTo {c : Checker} (hc : c.IsStandard) {v : Value} {s : Site}
    {f : Failure} (h : c.check v s = .fail f) :
    ∃ path d w cause, c.LeadsTo v path d w ∧ d.Refuses w cause ∧
      f = cause.failure (s.descend path) := by
  induction c using induct_children generalizing v s with
  | step c ih =>
    rcases (outcome_eq_fail_iff c .check v s f).1 h with hown | ⟨hown, before, p, after, hparts,
      hbefore, hp⟩
    · obtain ⟨cause, hr, rfl⟩ := hc.refuses_of_own hown
      exact ⟨[], c, v, cause, .here, hr, rfl⟩
    · obtain ⟨hentry, hdown⟩ := hc.leadsTo_of_parts hown hparts hbefore
      have hpart : p ∈ c.parts .check v := by simp [hparts]
      have hmem : p.checker ∈ c.children := mem_children_of_mem_parts hpart
      have hcheck : p.checker.check p.value (s.descend p.path) = .fail f := by
        rw [← hp, Part.outcome, hentry, outcome_check]
      obtain ⟨path, d, w, cause, hl, hr, rfl⟩ := ih _ hmem (hc.of_mem_children hmem) hcheck
      exact ⟨p.path ++ path, d, w, cause, hdown hl, hr, by rw [Site.descend_append]⟩

/-- A check fails if and only if a path leads to a refusal, and it ends in the failure of its
cause at the end of the path. -/
theorem IsStandard.check_eq_fail_iff {c : Checker} (hc : c.IsStandard) (v : Value) (s : Site)
    (f : Failure) : c.check v s = .fail f ↔ ∃ path d w cause, c.LeadsTo v path d w ∧
      d.Refuses w cause ∧ f = cause.failure (s.descend path) := by
  refine ⟨hc.exists_leadsTo, ?_⟩
  rintro ⟨path, d, w, cause, hl, hr, rfl⟩
  exact hl.check_eq (hr.check_eq _)

/-- Wherever a value stands, a checker refuses it at the same path and for the same cause. -/
theorem IsStandard.exists_cause_of_check_eq_fail {c : Checker} (hc : c.IsStandard) {v : Value}
    {s : Site} {f : Failure} (h : c.check v s = .fail f) :
    ∃ (path : List Step) (cause : Cause), f = cause.failure (s.descend path) ∧
      ∀ s', c.check v s' = .fail (cause.failure (s'.descend path)) := by
  obtain ⟨path, d, w, cause, hl, hr, rfl⟩ := hc.exists_leadsTo h
  exact ⟨path, cause, rfl, fun s' => hl.check_eq (hr.check_eq _)⟩

theorem IsStandard.position_of_check_eq_fail {c : Checker} (hc : c.IsStandard) {v : Value}
    {s : Site} {f : Failure} (h : c.check v s = .fail f) : f.position = s.location.position := by
  obtain ⟨path, d, w, cause, -, -, rfl⟩ := hc.exists_leadsTo h
  exact Site.position_descend s path

/-- The failure of an argument names the method, the position and the path to a refused part :
some path leads from the checker and the argument to a checker that refuses the part itself,
all that stands before the path passes, and the failure is the one in which that checker ends
there. Its code, sort and details are those of the cause of the refusal, and its location is that
path below the argument. Conversely a path of this sort is enough for the failure. -/
theorem checkValue_eq_fail_iff {c : Checker} (hc : c.IsStandard) (v : Value) (method : String)
    (position : Nat) (e : Failure) :
    c.checkValue v method position = .fail e ↔
      ∃ path w d cause, v.at? path = some w ∧ c.LeadsTo v path d w ∧ d.Refuses w cause ∧
        e = cause.failure ⟨method, ⟨path.reverse, position⟩⟩ ∧
        d.check w ⟨method, ⟨path.reverse, position⟩⟩ = .fail e ∧
        e.code = cause.code ∧ e.kind = cause.kind ∧ e.params = cause.params ∧
        e.location = Location.text ⟨path.reverse, position⟩ ∧ e.position = position ∧
        e.method = method ∧ e.message = cause.message e.location method := by
  refine (hc.check_eq_fail_iff v _ e).trans ⟨?_, ?_⟩
  · rintro ⟨path, d, w, cause, hl, hr, rfl⟩
    rw [Site.descend_argument]
    refine ⟨path, w, d, cause, hl.at?_eq, hl, hr, rfl, hr.check_eq _, ?_⟩
    exact ⟨rfl, rfl, rfl, rfl, rfl, rfl, rfl⟩
  · rintro ⟨path, w, d, cause, -, hl, hr, rfl, -⟩
    exact ⟨path, d, w, cause, hl, hr, by rw [Site.descend_argument]⟩

/-- A name that is missing in the second of two objects. -/
theorem checkValue_eq_fail_missing_name :
    let c := arrayOf (ofFields [("name", required (kindOf .string))])
    let v := Value.array [.object none (.ofList [("name", .string "a")]),
      .object none (.ofList [("age", .null), ("name", .null)])]
    let e := Cause.required.failure ⟨"save", ⟨[.property "name", .element 1], 2⟩⟩
    c.IsStandard ∧ e.location = "property name of 1st element of 2nd" ∧
      c.checkValue v "save" 2 = .fail e ∧
      ∃ path w d cause, v.at? path = some w ∧ c.LeadsTo v path d w ∧ d.Refuses w cause ∧
        e = cause.failure ⟨"save", ⟨path.reverse, 2⟩⟩ ∧
        d.check w ⟨"save", ⟨path.reverse, 2⟩⟩ = .fail e ∧
        e.code = cause.code ∧ e.kind = cause.kind ∧ e.params = cause.params ∧
        e.location = Location.text ⟨path.reverse, 2⟩ ∧ e.position = 2 ∧
        e.method = "save" ∧ e.message = cause.message e.location "save" := by
  intro c v e
  have hc : c.IsStandard := by
    refine .arrayOf (.shape fun field hf => ?_)
    have : field = ("name", required (kindOf .string)) := List.mem_singleton.1 hf
    exact this ▸ .required (.kindOf _)
  have he : c.checkValue v "save" 2 = .fail e := by decide
  exact ⟨hc, by decide, he, (checkValue_eq_fail_iff hc v "save" 2 e).1 he⟩

end Checker

end CallGuard
