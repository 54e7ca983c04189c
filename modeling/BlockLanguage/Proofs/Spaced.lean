import BlockLanguage.Proofs.Joined

namespace BlockLanguage

/-!
# Words written on one line

The tokens of words can be had without their text: each word stands behind the widths of the
words before it, with one column for the blank behind each.  These are the tokens that the scan
finds in the text of the words, as long as it takes each word as one token.

* `StandsAlone` — texts that the scan takes as one token between blanks;
* `spaced` — the text of words with a blank behind each;
* `scanFrom_standsAlone` — the scan of one word and the blank behind it;
* `standsAlone_of_segments` — what the scan finds stands alone;
* `ofWords_eq_tokenize_spaced_iff` — when both ways give the same tokens.
-/

/-! ### Texts that stand alone -/

/-- A text that the scan takes as one token between blanks: a word, or one character that is
    neither blank nor part of a word. -/
def StandsAlone (w : String) : Prop :=
  IsWord w ∨ ∃ c, w = String.singleton c ∧ isBlank c = false ∧ isWordChar c = false

/-- The characters that may be a token make up a text that stands alone. -/
theorem Lexeme.standsAlone {before behind : List Char} {w : String}
    (h : Lexeme before w.toList behind) : StandsAlone w := by
  generalize hchars : w.toList = cs at h
  cases h with
  | word nonempty chars left right =>
    subst hchars
    exact .inl ⟨nonempty, chars⟩
  | @other c behind hblank hword =>
    refine .inr ⟨c, ?_, hblank, hword⟩
    apply String.toList_injective
    rw [hchars, String.toList_singleton]

/-- A text that stands alone may be a token with nothing around it. -/
theorem StandsAlone.lexeme {w : String} (h : StandsAlone w) : Lexeme [] w.toList [] := by
  rcases h with hw | ⟨c, rfl, hblank, hword⟩
  · exact .word hw.nonempty hw.chars nofun nofun
  · rw [String.toList_singleton]
    exact .other hblank hword

/-- A text that stands alone keeps to its line. -/
theorem StandsAlone.newline_not_mem {w : String} (h : StandsAlone w) : '\n' ∉ w.toList := by
  intro hmem
  rw [← h.lexeme.inked_eq, inked, List.mem_filter, isBlank_newline] at hmem
  exact absurd hmem.2 (by decide)

/-- Within a line, each character leads one column on. -/
theorem Position.after_of_newline_not_mem {p : Position} {cs : List Char} (h : '\n' ∉ cs) :
    p.after cs = ⟨p.line, p.column + cs.length⟩ := by
  induction cs generalizing p with
  | nil => rfl
  | cons c cs ih =>
    rw [List.mem_cons, not_or] at h
    obtain ⟨hc, hcs⟩ := h
    have hstep : p.advance c = ⟨p.line, p.column + 1⟩ := if_neg (Ne.symm hc)
    rw [after_cons, hstep, ih hcs, List.length_cons]
    show (⟨p.line, p.column + 1 + cs.length⟩ : Position) = ⟨p.line, p.column + (cs.length + 1)⟩
    rw [Nat.add_assoc, Nat.add_comm 1]

/-- A text that stands alone, with no word character behind it, is scanned as one token. -/
theorem StandsAlone.scanFrom_append {w : String} (h : StandsAlone w) (p : Position)
    {cs : List Char} (hcs : ∀ c ∈ cs.head?, isWordChar c = false) :
    scanFrom p (w.toList ++ cs) = ⟨w, p⟩ :: scanFrom (p.after w.toList) cs := by
  rcases h with hw | ⟨c, rfl, hc, hcw⟩
  · rw [scanFrom_run p hw.nonempty hw.chars hcs, String.ofList_toList]
  · rw [String.toList_singleton]
    exact scanFrom_other p hc hcw cs

/-! ### From words to tokens -/

/-- The text of words, with a blank behind each. -/
def spaced (words : List String) : String := String.join (words.map (· ++ " "))

theorem toList_spaced_cons (w : String) (ws : List String) :
    (spaced (w :: ws)).toList = w.toList ++ ' ' :: (spaced ws).toList := by
  simp [spaced]

/-- **One word.**  A text that stands alone, with a blank behind it, is scanned as one token. -/
theorem scanFrom_standsAlone {w : String} (h : StandsAlone w) (p : Position) (cs : List Char) :
    scanFrom p (w.toList ++ ' ' :: cs) =
      ⟨w, p⟩ :: scanFrom ⟨p.line, p.column + w.length + 1⟩ cs := by
  have hblank : isBlank ' ' = true := by decide
  have hplace : (p.after w.toList).advance ' ' = ⟨p.line, p.column + w.length + 1⟩ := by
    rw [Position.after_of_newline_not_mem h.newline_not_mem, String.length_toList]
    rfl
  rw [h.scanFrom_append p (head?_of_isBlank hblank cs), scanFrom_blank _ hblank, hplace]

/-- Words that stand alone are scanned as the columns that their widths give. -/
theorem scanFrom_spaced {ws : List String} (h : ∀ w ∈ ws, StandsAlone w) (column : Nat) :
    scanFrom ⟨1, column⟩ (spaced ws).toList = Token.ofWordsFrom column ws := by
  induction ws generalizing column with
  | nil => exact scanFrom_nil _
  | cons w ws ih =>
    rw [List.forall_mem_cons] at h
    rw [toList_spaced_cons, scanFrom_standsAlone h.1, Token.ofWordsFrom, ih h.2]

/-! ### From tokens to words -/

/-- The tokens of words have these words as their texts. -/
theorem texts_ofWordsFrom (column : Nat) (ws : List String) :
    texts (Token.ofWordsFrom column ws) = ws ++ [endMark] := by
  induction ws generalizing column with
  | nil => rfl
  | cons w ws ih => rw [Token.ofWordsFrom, texts_cons, ih, List.cons_append]

/-- What the scan finds stands alone. -/
theorem standsAlone_of_segments {before cs : List Char} {ts : List Token}
    (h : Segments before cs ts) : ∀ t ∈ ts, StandsAlone t.text := by
  induction h with
  | nil => nofun
  | blank _ _ ih => exact ih
  | token h _ ih => exact List.forall_mem_cons.2 ⟨h.lexeme.standsAlone, ih⟩

/-- **Two ways to tokens.**  The tokens of words, with columns counted from the widths of the
    words, are those that the scan finds in the text of the words with a blank behind each,
    the places of all tokens and the end mark included, exactly if each word stands alone. -/
theorem ofWords_eq_tokenize_spaced_iff (ws : List String) :
    Token.ofWords ws = tokenize (spaced ws) ↔ ∀ w ∈ ws, StandsAlone w := by
  constructor
  · intro heq
    obtain ⟨ts, htokens, hsegments⟩ := exists_segments .start (spaced ws).toList [] rfl (.inl nofun)
    -- Both lists of tokens end with the end mark, so the words are what the scan has found.
    have htexts : ws ++ [endMark] = texts ts ++ [endMark] := by
      rw [← texts_ofWordsFrom 1 ws]
      show texts (Token.ofWords ws) = _
      rw [heq, tokenize, htokens, texts_append]
      rfl
    have hws : ws = texts ts := List.append_cancel_right htexts
    intro w hw
    rw [hws] at hw
    obtain ⟨t, ht, rfl⟩ := List.mem_map.1 hw
    exact standsAlone_of_segments hsegments t ht
  · intro h
    exact (scanFrom_spaced h 1).symm

-- A character of several bytes takes one column, and a newline is no word.
example : Token.ofWords ["IF", "é", "x-1"] = tokenize "IF é x-1 " ∧
    Token.ofWords ["\n", "x"] ≠ tokenize "\n x " := by decide +kernel

end BlockLanguage
