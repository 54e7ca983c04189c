import BlockLanguage.Proofs.Spaced
import BlockLanguage.Violation

namespace BlockLanguage

/-!
# Classes of words

The grammar tells reserved words, conditions and names apart.  The tables that it looks a text
up in exclude each other, and together they take all words that begin with a letter, which are
the texts beginning with a letter that the scan takes as one token.

* `WordClass` — the classes, and what belongs to them;
* `WordClass.eq_of_holds` — no text belongs to two of them;
* `WordClass.exists_holds_iff` — the texts that belong to one;
* `Condition.ofText_eq_ok_iff` — the texts that a condition is read from;
* `scanFrom_between_blanks` — the scan of a text with blanks on both sides;
* `texts_tokenize_eq_iff` — the texts that are scanned as one token;
* `classes_fit_scan` — classes and scan taken together.
-/

/-! ### Classes -/

/-- What a word is to the grammar. -/
inductive WordClass
  | keyword
  | condition
  | name
  deriving DecidableEq, Repr

/-- Whether the text `s` belongs to the class. -/
def WordClass.holds : WordClass → String → Bool
  | keyword, s => isKeyword s
  | condition, s => isCondition s
  | name, s => isIdentifier s

/-- A reserved word begins with a letter. -/
theorem isLettered_keyword (k : Keyword) : IsLettered k.text := by
  refine ⟨isWord_keyword k, ?_⟩
  cases k <;> exact ⟨_, rfl, by decide⟩

/-- A condition begins with a letter. -/
theorem isLettered_condition (c : Condition) : IsLettered c.text := by
  refine ⟨isWord_condition c, ?_⟩
  cases c <;> exact ⟨_, rfl, by decide⟩

/-- No reserved word is a condition. -/
theorem isCondition_of_isKeyword {s : String} (h : isKeyword s = true) :
    isCondition s = false := by
  obtain ⟨k, rfl⟩ := isKeyword_iff.1 h
  cases k <;> decide

/-- An instruction that every robot knows can be named. -/
theorem isIdentifier_of_isPrimitive {s : String} (h : isPrimitive s = true) :
    isIdentifier s = true := by
  have hall : ∀ w ∈ primitives, isIdentifier w = true := by decide +kernel
  exact hall s (List.contains_iff_mem.1 h)

namespace WordClass

variable {s : String}

/-- **At most one class.**  No text belongs to two classes. -/
theorem eq_of_holds {k l : WordClass} (hk : k.holds s = true) (hl : l.holds s = true) :
    k = l := by
  have hcondition : isKeyword s = true → isCondition s = false := isCondition_of_isKeyword
  have hname : isIdentifier s = true → isKeyword s = false ∧ isCondition s = false :=
    fun h => (isIdentifier_iff.1 h).2
  cases k <;> cases l <;> simp_all [holds]

/-- What belongs to a class is a word that begins with a letter. -/
theorem isLettered_of_holds {k : WordClass} (h : k.holds s = true) : IsLettered s := by
  cases k with
  | keyword =>
    obtain ⟨k, rfl⟩ := isKeyword_iff.1 h
    exact isLettered_keyword k
  | condition =>
    obtain ⟨c, rfl⟩ := isCondition_iff.1 h
    exact isLettered_condition c
  | name => exact (isIdentifier_iff.1 h).1

/-- **At least one class.**  The words that begin with a letter are those that belong to a
    class. -/
theorem exists_holds_iff : (∃ k : WordClass, k.holds s = true) ↔ IsLettered s := by
  constructor
  · rintro ⟨k, h⟩
    exact isLettered_of_holds h
  · intro h
    by_cases hkeyword : isKeyword s = true
    · exact ⟨keyword, hkeyword⟩
    by_cases hcondition : isCondition s = true
    · exact ⟨condition, hcondition⟩
    rw [Bool.not_eq_true] at hkeyword hcondition
    exact ⟨name, isIdentifier_iff.2 ⟨h, hkeyword, hcondition⟩⟩

/-- The end mark belongs to no class. -/
theorem holds_endMark (k : WordClass) : k.holds endMark = false := by
  rw [← Bool.not_eq_true]
  intro h
  exact (isLettered_of_holds h).ne_endMark rfl

end WordClass

/-! ### Conditions -/

namespace Condition

/-- A condition is read from the word that writes it, and from no other text. -/
theorem ofText_eq_ok_iff {s : String} {c : Condition} : ofText s = .ok c ↔ c.text = s := by
  rw [← ofText?_eq_some_iff]
  unfold ofText
  split
  · next d h => rw [h, Except.ok.injEq, Option.some.injEq]
  · next h => simp [h]

/-- The words that stand for conditions are those that one is read from. -/
theorem exists_ofText_eq_ok_iff {s : String} :
    (∃ c, ofText s = .ok c) ↔ isCondition s = true := by
  simp only [ofText_eq_ok_iff, isCondition_iff]

end Condition

/-! ### One token -/

/-- Blanks are dropped. -/
theorem scanFrom_blanks (p : Position) {bs : List Char} (h : ∀ b ∈ bs, isBlank b = true)
    (cs : List Char) : scanFrom p (bs ++ cs) = scanFrom (p.after bs) cs := by
  induction bs generalizing p with
  | nil => rfl
  | cons b bs ih =>
    rw [List.forall_mem_cons] at h
    rw [List.cons_append, scanFrom_blank p h.1, ih _ h.2, Position.after_cons]

/-- **Between blanks.**  A text that stands alone, with nothing but blanks around it, is scanned
    as one token. -/
theorem scanFrom_between_blanks {w : String} (hw : StandsAlone w) (p : Position)
    {as bs : List Char} (has : ∀ a ∈ as, isBlank a = true) (hbs : ∀ b ∈ bs, isBlank b = true) :
    scanFrom p (as ++ w.toList ++ bs) =
      [⟨w, p.after as⟩, Token.atEnd (p.after (as ++ w.toList ++ bs))] := by
  have hends : ∀ b ∈ bs.head?, isWordChar b = false :=
    fun b hb => isWordChar_of_isBlank (hbs b (List.mem_of_mem_head? hb))
  have hbehind : ∀ q : Position, scanFrom q bs = [Token.atEnd (q.after bs)] := by
    intro q
    have hblanks := scanFrom_blanks q hbs []
    rwa [List.append_nil, scanFrom_nil] at hblanks
  rw [List.append_assoc, scanFrom_blanks p has, hw.scanFrom_append _ hends, hbehind,
    Position.after_append, Position.after_append]

/-- The texts that stand alone are those that are scanned as one token. -/
theorem texts_tokenize_eq_iff {w : String} :
    texts (tokenize w) = [w, endMark] ↔ StandsAlone w := by
  constructor
  · intro h
    obtain ⟨ts, htokens, hsegments⟩ := exists_segments .start w.toList [] rfl (.inl nofun)
    rw [tokenize, htokens, texts_append] at h
    -- Both lists end with the end mark, so one token with the text has been found.
    have htexts : texts ts ++ [endMark] = [w] ++ [endMark] := h
    obtain ⟨t, rfl, rfl⟩ := List.map_eq_singleton_iff.1 (List.append_cancel_right htexts)
    exact standsAlone_of_segments hsegments t (List.mem_singleton_self t)
  · intro h
    have hscan := scanFrom_between_blanks h .start (List.forall_mem_nil _) (List.forall_mem_nil _)
    rw [List.nil_append, List.append_nil] at hscan
    rw [tokenize, hscan]
    rfl

/-- Among the texts that begin with a letter, the words are those that stand alone. -/
theorem isLettered_iff {w : String} : IsLettered w ↔ BeginsWithLetter w ∧ StandsAlone w := by
  constructor
  · intro h
    exact ⟨h.letter, .inl h.toIsWord⟩
  · rintro ⟨hletter, hw | ⟨c, rfl, -, hword⟩⟩
    · exact ⟨hw, hletter⟩
    · -- A single character that is a letter is part of a word.
      obtain ⟨d, hd, halpha⟩ := hletter
      rw [String.toList_singleton] at hd
      obtain rfl : c = d := Option.some.inj hd
      simp [isWordChar, Char.isAlphanum, halpha] at hword

/-! ### Classes and the scan -/

/-- **Classes fit the scan.**  A text is at most one of reserved word, condition and name.  It is
    one of them exactly if it begins with a letter and is scanned as one token; with nothing but
    blanks around it, it is still scanned as that one token, at the place where it stands.  All
    instructions that every robot knows are names, the end mark is none of all these, and
    conditions are read from the words that stand for them, and written as these. -/
theorem classes_fit_scan (t : String) :
    (∀ k l : WordClass, k.holds t = true → l.holds t = true → k = l) ∧
    ((∃ k : WordClass, k.holds t = true) ↔
      BeginsWithLetter t ∧ texts (tokenize t) = [t, endMark]) ∧
    (isPrimitive t = true → isIdentifier t = true) ∧
    (isPrimitive endMark = false ∧ ∀ k : WordClass, k.holds endMark = false) ∧
    ((∃ c, Condition.ofText t = .ok c) ↔ isCondition t = true) ∧
    (∀ c, Condition.ofText t = .ok c ↔ c.text = t) ∧
    ∀ k : WordClass, k.holds t = true → ∀ u v : String,
      (∀ c ∈ u.toList, isBlank c = true) → (∀ c ∈ v.toList, isBlank c = true) →
        tokenize (u ++ t ++ v) =
          [⟨t, .behind u.toList⟩, Token.atEnd (.behind (u ++ t ++ v).toList)] := by
  refine ⟨fun k l => WordClass.eq_of_holds, ?_, isIdentifier_of_isPrimitive, ⟨?_, ?_⟩,
    Condition.exists_ofText_eq_ok_iff, fun c => Condition.ofText_eq_ok_iff, ?_⟩
  · rw [WordClass.exists_holds_iff, texts_tokenize_eq_iff, isLettered_iff]
  · decide
  · exact WordClass.holds_endMark
  · intro k h u v hu hv
    have halone : StandsAlone t := .inl (WordClass.isLettered_of_holds h).toIsWord
    have hscan := scanFrom_between_blanks halone .start hu hv
    rwa [← String.toList_append, ← String.toList_append, ← Position.behind_eq_after,
      ← Position.behind_eq_after] at hscan

/-- An instruction that every robot knows, on a line of its own between blanks that are not of
    ASCII. -/
theorem classes_fit_scan_around_primitive :
    isPrimitive "turnleft" = true ∧ WordClass.name.holds "turnleft" = true ∧
    (∀ c ∈ "\u2003\n".toList, isBlank c = true) ∧ (∀ c ∈ "\u00a0".toList, isBlank c = true) ∧
    isIdentifier "turnleft" = true ∧
    (∀ k : WordClass, k.holds "turnleft" = true → k = .name) ∧
    tokenize ("\u2003\n" ++ "turnleft" ++ "\u00a0") =
      [⟨"turnleft", ⟨2, 1⟩⟩, Token.atEnd ⟨2, 10⟩] := by
  have hprimitive : isPrimitive "turnleft" = true := by decide
  have hname : WordClass.name.holds "turnleft" = true := by decide +kernel
  have hfront : ∀ c ∈ "\u2003\n".toList, isBlank c = true :=
    List.all_eq_true.1 (by decide +kernel)
  have hbehind : ∀ c ∈ "\u00a0".toList, isBlank c = true :=
    List.all_eq_true.1 (by decide +kernel)
  obtain ⟨hone, -, hnamed, -, -, -, hscan⟩ := classes_fit_scan "turnleft"
  refine ⟨hprimitive, hname, hfront, hbehind, hnamed hprimitive, fun k hk => hone k _ hk hname, ?_⟩
  rw [hscan .name hname _ _ hfront hbehind]
  decide +kernel

-- A word that begins with a digit is one token, and none of the classes is its own.
example : texts (tokenize "2go") = ["2go", endMark] ∧
    [WordClass.keyword, .condition, .name].map (·.holds "2go") = [false, false, false] := by
  decide +kernel

end BlockLanguage
