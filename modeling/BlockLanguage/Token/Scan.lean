import BlockLanguage.Text.Blank
import BlockLanguage.Token
import BlockLanguage.Vocabulary

namespace BlockLanguage

/-!
# From a text to its tokens

Blanks separate tokens and are dropped.  A run of word characters is one token,
as long as it can be; any other character is a token of its own.  The end mark
closes the list, at the place where the text ends.

* `scanFrom` — the tokens of a run of characters that starts at a given place;
* `tokenize` — the tokens of a whole text.
-/

/-- The tokens of the characters that start at `p`, the end mark included. -/
def scanFrom (p : Position) : List Char → List Token
  | [] => [Token.atEnd p]
  | c :: cs =>
    if isBlank c then
      scanFrom (p.advance c) cs
    else if isWordChar c then
      let word := c :: cs.takeWhile isWordChar
      ⟨String.ofList word, p⟩ :: scanFrom (p.after word) (cs.dropWhile isWordChar)
    else
      ⟨String.singleton c, p⟩ :: scanFrom (p.advance c) cs
  termination_by cs => cs.length
  decreasing_by
    all_goals simp
    have h := (List.dropWhile_sublist (l := cs) isWordChar).length_le
    omega

/-! ### One step of the scan -/

theorem scanFrom_nil (p : Position) : scanFrom p [] = [Token.atEnd p] := by rw [scanFrom]

/-- A blank is dropped. -/
theorem scanFrom_blank (p : Position) {c : Char} (h : isBlank c = true) (cs : List Char) :
    scanFrom p (c :: cs) = scanFrom (p.advance c) cs := by
  rw [scanFrom, if_pos h]

/-- A word is taken as long as it can be. -/
theorem scanFrom_word (p : Position) {c : Char} (hb : isBlank c = false)
    (hw : isWordChar c = true) (cs : List Char) :
    scanFrom p (c :: cs) =
      ⟨String.ofList (c :: cs.takeWhile isWordChar), p⟩ ::
        scanFrom (p.after (c :: cs.takeWhile isWordChar)) (cs.dropWhile isWordChar) := by
  rw [scanFrom, if_neg (by simp [hb]), if_pos hw]

/-- Any other character is a token of its own. -/
theorem scanFrom_other (p : Position) {c : Char} (hb : isBlank c = false)
    (hw : isWordChar c = false) (cs : List Char) :
    scanFrom p (c :: cs) = ⟨String.singleton c, p⟩ :: scanFrom (p.advance c) cs := by
  rw [scanFrom, if_neg (by simp [hb]), if_neg (by simp [hw])]

/-- No word character is a blank. -/
theorem isBlank_of_isWordChar {c : Char} (h : isWordChar c = true) : isBlank c = false := by
  have hc : c.toNat = c.val.toNat := rfl
  have hupper : c.isUpper = decide (c.val ≥ 65 ∧ c.val ≤ 90) := rfl
  have hlower : c.isLower = (decide (c.val ≥ 97) && decide (c.val ≤ 122)) := rfl
  have halpha : c.isAlpha = (c.isUpper || c.isLower) := rfl
  simp only [isWordChar, Char.isAlphanum, halpha, hupper, hlower, Char.isDigit, Bool.or_eq_true,
    Bool.and_eq_true, decide_eq_true_eq, beq_iff_eq, UInt32.le_iff_toNat_le, ge_iff_le] at h
  simp only [isBlank, inRanges, blankRanges, List.any_cons, List.any_nil, Bool.or_false,
    Bool.or_eq_false_iff, Bool.and_eq_false_iff, decide_eq_false_iff_not, Nat.not_le]
  rcases h with h | rfl
  · simp at h
    omega
  · decide

/-! ### Whole texts -/

/-- The tokens of a text, the end mark included. -/
def tokenize (source : String) : List Token := scanFrom Position.start source.toList

-- A hyphen belongs to a word, a bracket does not, and a newline resets the column.
example : tokenize "a-1 (\n b" =
    [⟨"a-1", ⟨1, 1⟩⟩, ⟨"(", ⟨1, 5⟩⟩, ⟨"b", ⟨2, 2⟩⟩, Token.atEnd ⟨2, 3⟩] := by decide +kernel

end BlockLanguage
