import CallGuard.Proofs.Blame
import CallGuard.Proofs.Conversion
import CallGuard.Proofs.Texts

/-!
# Texts that are written are read

A text is normalised by reading it as a document, taking that for a value and writing the value
again (`normalise?`). The text of any value is in normal form (`normalise?_text_toJson`) : it reads
back as the document of the value, and the document of what was read is the same one. So what is
normalised once stays as it is, and the text that lists the allowed values in a failure is read as
the array of their documents (`texts_read_back`).

The bound on depth is the reader's. A document that has been read is within it, and going through
values makes no document deeper (`Value.depth_toJson_ofJson_le`).
-/

namespace CallGuard

/-! ## Depth of converted documents -/

theorem Number.isLeaf_toJson (x : Number) : x.toJson.isLeaf := by
  cases h : x.isFinite with
  | true =>
    obtain ⟨n, hn, -⟩ := exists_toJson_eq h
    rw [hn]
    rfl
  | false =>
    rw [toJson_eq_null h]
    rfl

namespace Value

/-- A document that is taken for a value and written again is no deeper than it was. -/
theorem depth_toJson_ofJson_le : (j : Json) → (ofJson j).toJson.depth ≤ j.depth := by
  refine Json.induct ⟨fun j hj => ?_, fun items ih => ?_, fun p ih => ?_⟩
  · have hleaf : (ofJson j).toJson.isLeaf := by
      cases j with
      | array => cases hj
      | object => cases hj
      | number m => exact Number.isLeaf_toJson m.toNumber
      | _ => rfl
    rw [Json.depth_of_isLeaf hleaf]
    exact Nat.zero_le _
  · obtain ⟨hpos, hless⟩ := Json.depth_array_le_iff.1 (Nat.le_refl (Json.array items).depth)
    rw [ofJson, ofJsonItems_eq_map, toJson, toJsonItems_eq_map, List.map_map]
    refine Json.depth_array_le_iff.2 ⟨hpos, fun i hi => ?_⟩
    obtain ⟨j, hj, rfl⟩ := List.mem_map.1 hi
    exact Nat.lt_of_le_of_lt (ih j hj) (hless j hj)
  · obtain ⟨hpos, hless⟩ := Json.depth_object_le_iff.1 (Nat.le_refl (Json.object p).depth)
    rw [ofJson_object, toJson_object, Properties.map_map]
    refine Json.depth_object_le_iff.2 ⟨hpos, fun pair hpair => ?_⟩
    rw [Properties.toList_map] at hpair
    obtain ⟨source, hsource, rfl⟩ := List.mem_map.1 hpair
    exact Nat.lt_of_le_of_lt (ih source hsource) (hless source hsource)

end Value

/-! ## Normal forms -/

/-- A text that stands for a document, written anew by way of values. -/
def normalise? (text : String) : Option String :=
  (Json.ofText? text).map fun j => (Value.ofJson j).toJson.text

/-- The text of a value is in normal form. -/
theorem normalise?_text_toJson {v : Value} (h : v.toJson.depth ≤ maxDepth) :
    normalise? v.toJson.text = some v.toJson.text := by
  rw [normalise?, (Json.ofText?_text_iff _).2 h, Option.map_some]
  exact congrArg (fun j => some (Json.text j)) v.toJson_reread

theorem failure_of_oneOf {allowed : List Value} {entry : Entry} {v : Value} {s : Site}
    {f : Failure} (h : (Checker.oneOf allowed).outcome entry v s = .fail f) :
    f = Cause.failure s (.notOneOf v (allowedText allowed)) := by
  cases entry with
  | check =>
    rw [Checker.outcome_check, Checker.check_of_isPlain rfl] at h
    split at h
    · cases h
    · exact (Checker.ofBool_eq_fail_iff.1 h).2
  | present => exact (Checker.ofBool_eq_fail_iff.1 h).2

theorem allowedText_eq (allowed : List Value) :
    allowedText allowed = (Json.array (allowed.map Value.toJson)).text := by
  rw [allowedText, Value.toJson, toJsonItems_eq_map]

/-- Every failure of a list of allowed values gives the list as a text that reads back as the array
of the documents of these values, members in the same order, unless they are nested deeper than a
reader goes. And every text that is read, whatever its characters, repeated names and
notations, has a normal form, which reads back as the document that it was written from, and is
its own normal form. -/
theorem texts_read_back :
    (∀ allowed : List Value,
      (∀ entry v s f, (Checker.oneOf allowed).outcome entry v s = .fail f →
        f.param? "allowed" = some (allowedText allowed)) ∧
      (Json.ofText? (allowedText allowed) = some (.array (allowed.map Value.toJson)) ↔
        (Json.array (allowed.map Value.toJson)).depth ≤ maxDepth)) ∧
    ∀ text j, Json.ofText? text = some j → ∃ n, normalise? text = some n ∧
      Json.ofText? n = some (Value.ofJson j).toJson ∧ normalise? n = some n := by
  refine ⟨fun allowed => ⟨fun entry v s f h => ?_, ?_⟩, fun text j h => ?_⟩
  · rw [failure_of_oneOf h]
    rfl
  · rw [allowedText_eq]
    exact Json.ofText?_text_iff _
  · have hdepth : (Value.ofJson j).toJson.depth ≤ maxDepth :=
      Nat.le_trans (Value.depth_toJson_ofJson_le j) (Json.depth_le_of_ofText?_eq_some h)
    exact ⟨(Value.ofJson j).toJson.text, by rw [normalise?, h, Option.map_some],
      (Json.ofText?_text_iff _).2 hdepth, normalise?_text_toJson hdepth⟩

/-- A list with a mark, a backslash, a line feed, a negative zero and a NaN; and a text with gaps,
escapes of both forms, a repeated name and numbers in several notations. -/
theorem texts_read_back_of_awkward_texts :
    let allowed : List Value := [.string "a\"\\\n", .number (.zero true),
      .object none (.ofList [("z", .number .nan), ("a", .array [])])]
    let listed := "[\"a\\\"\\\\\\n\",0,\x7b\"z\":null,\"a\":[]\x7d]"
    let text := "\x7b \"b\" : 1, \"a\\\"\": [-0, 1.50e1, 1E20, 0.1e-6, [ ]], " ++
      "\"b\": \"\\u0041\\n\\ud83d\\ude00\\u0001\\\\\" \x7d"
    let n := "\x7b\"b\":\"A\\n😀\\u0001\\\\\",\"a\\\"\":[0,15,1e+20,1e-7,[]]\x7d"
    (∃ f, (Checker.oneOf allowed).check (.string "b") (Site.argument "m" 0) = .fail f ∧
      f.param? "allowed" = some listed) ∧
      Json.ofText? listed = some (.array (allowed.map Value.toJson)) ∧
      normalise? text = some n ∧ (Json.ofText? n).isSome ∧ normalise? n = some n := by
  intro allowed listed text n
  obtain ⟨hlists, htexts⟩ := texts_read_back
  obtain ⟨hparam, hread⟩ := hlists allowed
  have hlisted : allowedText allowed = listed := by decide +kernel
  rw [hlisted] at hparam hread
  have hn : normalise? text = some n := by decide +kernel
  obtain ⟨j, hj, -⟩ := Option.map_eq_some_iff.1 hn
  obtain ⟨n', hn', hdocument, hstable⟩ := htexts text j hj
  obtain rfl : n' = n := Option.some.inj (hn'.symm.trans hn)
  have hfail : (Checker.oneOf allowed).check (.string "b") (Site.argument "m" 0) =
      .fail (Cause.failure (Site.argument "m" 0) (.notOneOf (.string "b") listed)) := by
    decide +kernel
  exact ⟨⟨_, hfail, hparam .check _ _ _ hfail⟩, hread.2 (by decide +kernel), hn,
    by rw [hdocument, Option.isSome_some], hstable⟩

end CallGuard
