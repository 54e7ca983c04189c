import BlockLanguage.Proofs.Readable
import BlockLanguage.SyntaxError

namespace BlockLanguage

/-!
# The token that a message blames

* `Cause.found?` — the text of the token that a cause names, if it names one;
* `Cause.Blames` — the cause names no token, or the one with the given text, and
  its message describes that text.
-/

namespace Cause

/-- The text of the token that a cause names, if it names one. -/
def found? : Cause → Option String
  | unexpected _ found => some found
  | exhausted _ => none
  | afterEnd found => some found
  | unknownCondition found => some found
  | tooDeep => none
  | redefinesPrimitive name => some name
  | nameMismatch _ _ closing => some closing
  | duplicate name => some name

/-- A token that the cause names has the text `s`, and the message describes it. -/
def Blames (cause : Cause) (s : String) : Prop :=
  ∀ found ∈ cause.found?, found = s ∧
    ∃ before behind, cause.message = before ++ describeText s ++ behind

/-- What was found instead is described at the end of the message. -/
theorem exists_found_eq (e : Expected) (s : String) :
    ∃ before, e.found s = before ++ describeText s := by
  cases e with
  | name role =>
    simp only [Expected.found, describeText]
    by_cases hend : s = endMark
    · exact ⟨"", by simp [hend]⟩
    · -- Any other text is cited, behind a word or two that tell what it is.
      rw [if_neg hend, if_neg hend]
      split
      · exact ⟨"keyword ", rfl⟩
      · split
        · exact ⟨"condition ", rfl⟩
        · exact ⟨"invalid identifier ", rfl⟩
  | _ => exact ⟨"", by simp [Expected.found]⟩

theorem blames_unexpected (e : Expected) (s : String) : (unexpected e s).Blames s := by
  intro found hfound
  obtain ⟨before, h⟩ := exists_found_eq e s
  refine ⟨(Option.some.inj hfound).symm, "Expected " ++ e.choices ++ ", found " ++ before, "", ?_⟩
  show "Expected " ++ e.choices ++ ", found " ++ e.found s = _
  simp only [h, String.append_assoc, String.append_empty]

theorem blames_afterEnd (s : String) : (afterEnd s).Blames s := by
  intro found hfound
  exact ⟨(Option.some.inj hfound).symm, "Unexpected ", " after end of input", rfl⟩

theorem blames_tooDeep (s : String) : tooDeep.Blames s := nofun

/-- A name is described by citing it. -/
theorem describeText_of_isIdentifier {s : String} (h : isIdentifier s = true) :
    describeText s = cited s := by
  apply if_neg
  intro hend
  rw [hend, isIdentifier_endMark] at h
  cases h

theorem blames_redefinesPrimitive {s : String} (h : isIdentifier s = true) :
    (redefinesPrimitive s).Blames s := by
  intro found hfound
  refine ⟨(Option.some.inj hfound).symm, "",
    " is a primitive instruction and cannot be redefined", ?_⟩
  show cited s ++ " is a primitive instruction and cannot be redefined" = _
  simp only [describeText_of_isIdentifier h, String.empty_append]

theorem blames_nameMismatch (of : Section) (opening : String) {s : String}
    (h : isIdentifier s = true) : (nameMismatch of opening s).Blames s := by
  intro found hfound
  refine ⟨(Option.some.inj hfound).symm,
    of.title ++ " name mismatch: expected " ++ cited opening ++ ", found ", "", ?_⟩
  show of.title ++ " name mismatch: expected " ++ cited opening ++ ", found " ++ cited s = _
  simp only [describeText_of_isIdentifier h, String.append_empty]

theorem blames_duplicate {s : String} (h : isIdentifier s = true) : (duplicate s).Blames s := by
  intro found hfound
  refine ⟨(Option.some.inj hfound).symm, "Duplicate definition of instruction ", "", ?_⟩
  show "Duplicate definition of instruction " ++ cited s = _
  simp only [describeText_of_isIdentifier h, String.append_empty]

end Cause

end BlockLanguage
