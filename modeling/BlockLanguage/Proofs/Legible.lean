import BlockLanguage.Layout
import BlockLanguage.Proofs.Draft
import BlockLanguage.Proofs.Scanning

namespace BlockLanguage

/-!
# Texts that spell words

A text that consists of lines of words has these words as its tokens, however the
lines are indented.  Statements and drafts are written in such words if all names
in them are identifiers.

* `IsWord`, `AllWords` — texts that the scan takes as one token, and lists of them;
* `isIdentifier_iff` — the words that are identifiers;
* `Spells` — characters that are read as given words, whatever stands behind them;
* `texts_tokenize_joinLines` — the tokens of lines;
* `Statement.allWords_words`, `Draft.WellFormed.allWords` — what statements and
  drafts are written in.
-/

/-! ### Words -/

/-- A text that the scan takes as one token: word characters, and at least one. -/
structure IsWord (w : String) : Prop where
  nonempty : w.toList ≠ []
  chars : ∀ c ∈ w.toList, isWordChar c = true

/-- No word is the end mark. -/
theorem IsWord.ne_endMark {w : String} (h : IsWord w) : w ≠ endMark := by
  have hchars := ofList_ne_endMark h.chars
  rwa [String.ofList_toList] at hchars

/-- The first character of `w` is a letter. -/
def BeginsWithLetter (w : String) : Prop := ∃ c ∈ w.toList.head?, c.isAlpha = true

/-- A word that begins with a letter. -/
structure IsLettered (w : String) : Prop extends IsWord w where
  letter : BeginsWithLetter w

/-- The identifiers are the words that begin with a letter, reserved words and conditions
    apart. -/
theorem isIdentifier_iff {w : String} :
    isIdentifier w = true ↔ IsLettered w ∧ isKeyword w = false ∧ isCondition w = false := by
  have hwordChar : ∀ {c : Char}, c.isAlpha = true → isWordChar c = true := by
    intro c hc
    simp [isWordChar, Char.isAlphanum, hc]
  unfold isIdentifier
  split
  · next hw =>
    refine iff_of_false Bool.false_ne_true fun h => ?_
    exact h.1.nonempty hw
  · next c cs hw =>
    simp only [Bool.and_eq_true, List.all_eq_true, Bool.not_eq_true']
    constructor
    · rintro ⟨⟨⟨hc, hcs⟩, hkeyword⟩, hcondition⟩
      have hchars : ∀ d ∈ w.toList, isWordChar d = true := by
        rw [hw]
        exact List.forall_mem_cons.2 ⟨hwordChar hc, hcs⟩
      exact ⟨⟨⟨by simp [hw], hchars⟩, c, by rw [hw]; rfl, hc⟩, hkeyword, hcondition⟩
    · rintro ⟨⟨⟨-, hchars⟩, d, hd, halpha⟩, hkeyword, hcondition⟩
      rw [hw] at hchars hd
      obtain rfl : c = d := Option.some.inj hd
      exact ⟨⟨⟨halpha, (List.forall_mem_cons.1 hchars).2⟩, hkeyword⟩, hcondition⟩

/-- An identifier is a word. -/
theorem isWord_of_isIdentifier {w : String} (h : isIdentifier w = true) : IsWord w :=
  (isIdentifier_iff.1 h).1.toIsWord

/-- A reserved word is a word. -/
@[simp] theorem isWord_keyword (k : Keyword) : IsWord k.text := by
  have hnonempty : k.text.toList ≠ [] := by cases k <;> decide +kernel
  have hchars : k.text.toList.all isWordChar = true := by cases k <;> decide +kernel
  exact ⟨hnonempty, List.all_eq_true.1 hchars⟩

/-- A condition is written as a word. -/
@[simp] theorem isWord_condition (c : Condition) : IsWord c.text := by
  have hnonempty : c.text.toList ≠ [] := by cases c <;> decide +kernel
  have hchars : c.text.toList.all isWordChar = true := by cases c <;> decide +kernel
  exact ⟨hnonempty, List.all_eq_true.1 hchars⟩

/-- Each text of the list is a word. -/
def AllWords (ws : List String) : Prop := ∀ w ∈ ws, IsWord w

@[simp] theorem allWords_nil : AllWords [] := by simp [AllWords]

@[simp] theorem allWords_cons {w : String} {ws : List String} :
    AllWords (w :: ws) ↔ IsWord w ∧ AllWords ws := List.forall_mem_cons

@[simp] theorem allWords_append {us vs : List String} :
    AllWords (us ++ vs) ↔ AllWords us ∧ AllWords vs := List.forall_mem_append

/-! ### Characters that spell words -/

/-- The characters `cs` are read as the words `ws`, whatever stands behind them. -/
def Spells (cs : List Char) (ws : List String) : Prop :=
  ∀ p rest, texts (scanFrom p (cs ++ rest)) = ws ++ texts (scanFrom (p.after cs) rest)

theorem isBlank_newline : isBlank '\n' = true := by decide

namespace Spells

variable {cs ds : List Char} {ws vs : List String}

theorem nil : Spells [] [] := fun _ _ => rfl

/-- Words are spelled one after the other. -/
theorem append (hcs : Spells cs ws) (hds : Spells ds vs) : Spells (cs ++ ds) (ws ++ vs) := by
  intro p rest
  rw [List.append_assoc, hcs, hds, Position.after_append, List.append_assoc]

/-- A blank spells nothing. -/
theorem blank {c : Char} (h : isBlank c = true) (hcs : Spells cs ws) : Spells (c :: cs) ws := by
  intro p rest
  rw [List.cons_append, scanFrom_blank p h, hcs, Position.after_cons]

/-- An indent spells nothing. -/
theorem indent (n : Nat) : Spells (spaces n).toList [] := by
  rw [toList_spaces]
  induction n with
  | zero => exact nil
  | succ n ih => exact ih.blank (by decide)

/-- A word is spelled by its characters and a blank behind them. -/
theorem word {w : String} (hw : IsWord w) {c : Char} (hc : isBlank c = true) (hcs : Spells cs ws) :
    Spells (w.toList ++ c :: cs) (w :: ws) := by
  intro p rest
  have hbehind := hcs.blank hc (p.after w.toList) rest
  rw [List.append_assoc, List.cons_append,
    scanFrom_run p hw.nonempty hw.chars (head?_of_isBlank hc _), String.ofList_toList, texts_cons,
    Position.after_append]
  exact congrArg (w :: ·) hbehind

/-- Words with a blank between any two and a newline behind them. -/
theorem line : ∀ {ws : List String}, AllWords ws →
    Spells (" ".intercalate ws ++ "\n").toList ws
  | [], _ => nil.blank isBlank_newline
  | [w], h => by
    have hw := nil.word (allWords_cons.1 h).1 isBlank_newline
    simpa using hw
  | w :: v :: ws, h => by
    obtain ⟨hw, hws⟩ := allWords_cons.1 h
    have hboth := (line hws).word hw (c := ' ') (by decide)
    simpa [String.intercalate_cons_cons] using hboth

end Spells

/-! ### Lines -/

/-- A line spells its words. -/
theorem spells_line {l : Line} (h : AllWords l.words) : Spells l.text.toList l.words := by
  have hline := (Spells.indent l.indent).append (Spells.line h)
  rwa [← String.toList_append, ← String.append_assoc] at hline

/-- Lines spell their words, one line after the other. -/
theorem spells_joinLines {ls : List Line} (h : AllWords (ls.flatMap Line.words)) :
    Spells (joinLines ls).toList (ls.flatMap Line.words) := by
  induction ls with
  | nil => exact Spells.nil
  | cons l ls ih =>
    rw [List.flatMap_cons, allWords_append] at h
    have happend := (spells_line h.1).append (ih h.2)
    rw [← String.toList_append] at happend
    rw [joinLines, List.map_cons, String.join_cons]
    exact happend

/-- **The tokens of lines.**  A text of lines has their words as its tokens,
    whatever the indents. -/
theorem texts_tokenize_joinLines {ls : List Line} (h : AllWords (ls.flatMap Line.words)) :
    texts (tokenize (joinLines ls)) = ls.flatMap Line.words ++ [endMark] := by
  have hread := spells_joinLines h .start []
  rw [List.append_nil] at hread
  rw [tokenize, hread, scanFrom_nil]
  rfl

/-- There is a text with given words. -/
theorem exists_texts_tokenize {ws : List String} (h : AllWords ws) :
    ∃ source, texts (tokenize source) = ws ++ [endMark] := by
  -- One line that is not indented will do.
  have hline : [Line.mk 0 ws].flatMap Line.words = ws := List.flatMap_singleton _ _
  rw [← hline] at h ⊢
  exact ⟨_, texts_tokenize_joinLines h⟩

/-! ### The words of trees -/

/-- Statements that call identifiers are written in words. -/
theorem Statement.allWords_words :
    (∀ s : Statement, (∀ name ∈ s.calls, isIdentifier name = true) → AllWords s.words) ∧
    ∀ ss, (∀ name ∈ callsOf ss, isIdentifier name = true) → AllWords (wordsOf ss) := by
  have hall := forall_mem_words (P := IsWord) (fun k _ => isWord_keyword k) isWord_condition
  constructor
  · intro s h
    exact hall.1 s fun name hname => isWord_of_isIdentifier (h name hname)
  · intro ss h
    exact hall.2 ss fun name hname => isWord_of_isIdentifier (h name hname)

/-- A definition in order is written in words. -/
theorem Definition.WellFormed.allWords {d : Definition} (h : d.WellFormed) : AllWords d.words := by
  have hname := isWord_of_isIdentifier h.named
  have hbody := Statement.allWords_words.2 d.body h.readable.named
  simp [Definition.words, hname, hbody]

/-- A draft in order is written in words. -/
theorem Draft.WellFormed.allWords {d : Draft} (h : d.WellFormed) : AllWords d.words := by
  have hname := isWord_of_isIdentifier h.named
  have hbody := Statement.allWords_words.2 d.body h.readable.named
  have hdefinitions : AllWords (d.definitions.flatMap Definition.words) := by
    intro w hw
    obtain ⟨e, he, hw⟩ := List.mem_flatMap.1 hw
    exact (h.definitions e he).allWords w hw
  simp [Draft.words, hname, hbody, hdefinitions]

end BlockLanguage
