import BlockLanguage.CommandLine.Arguments
import Mathlib.Data.List.Basic

namespace BlockLanguage

/-!
# Numbers in digits

* `exists_digits` — the digits that write a number, which is read back from them;
* `readIndent?_toString` — an indent is read from its digits.
-/

/-- A number is written in digits, at least one, and is read back from them. -/
theorem exists_digits (n : Nat) : ∃ d ds, (toString n).toList = d :: ds ∧
    (∀ c ∈ d :: ds, c.isDigit = true) ∧ decimalValue 0 (d :: ds) = n := by
  obtain ⟨d, ds, hds⟩ := List.exists_cons_of_ne_nil (Nat.toDigits_ne_nil (b := 10) (n := n))
  have hlist : (toString n).toList = d :: ds := by
    rw [Nat.toString_eq_ofList_toDigits, String.toList_ofList, hds]
  refine ⟨d, ds, hlist, fun c hc => ?_, ?_⟩
  · exact Nat.isDigit_of_mem_toDigits (b := 10) (n := n) (by omega) (by omega) (hds ▸ hc)
  · rw [← hds]
    exact Nat.ofDigitChars_ten_toDigits

/-- A digit is no sign. -/
theorem ne_of_isDigit {c : Char} (h : c.isDigit = true) : c ≠ '+' ∧ c ≠ '-' := by
  constructor
  · rintro rfl
    cases h
  · rintro rfl
    cases h

/-- An indent is read from its digits. -/
theorem readIndent?_toString {n : Nat} (h : n < indentBound) :
    readIndent? (toString n) = some n := by
  obtain ⟨d, ds, hlist, hdigits, hvalue⟩ := exists_digits n
  have hall : (d :: ds).all Char.isDigit = true := List.all_eq_true.2 hdigits
  have hd := (ne_of_isDigit (hdigits d List.mem_cons_self)).1
  unfold readIndent?
  rw [hlist]
  simp [hd, hall, hvalue, h]

/-- A number is no option. -/
theorem isOption_toString (n : Nat) : isOption (toString n) = false := by
  obtain ⟨d, ds, hlist, hdigits, -⟩ := exists_digits n
  have hd := (ne_of_isDigit (hdigits d List.mem_cons_self)).2
  unfold isOption
  rw [hlist]
  simp [hd]

end BlockLanguage
