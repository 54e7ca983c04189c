import BlockLanguage.Proofs.Placement

namespace BlockLanguage

/-!
# Slips of one keyword

A program that is read holds its keywords in fixed proportions: two `IF` for each `THEN`,
two `WHILE` for each `DO`, an `IS` for the program and for each definition, and so on.  One
token more, less or other, where a keyword besides `ELSE` is concerned, puts these out of
proportion, so nothing is read from what is left.

* `keywordCount` — how often a keyword stands among words;
* `Closed`, `Balanced` — the proportions of keywords in statements and in programs;
* `Statement.closed_words`, `Draft.WellFormed.balanced` — statements and drafts keep them;
* `Balanced.keywordCount_eq` — at most one word put in place of at most one other keeps them
  only if both count alike;
* `Slip` — a token deleted, inserted or replaced;
* `parseProgram_refuses_slips` — no slip of a keyword besides `ELSE` is read as a program.
-/

/-! ### Keywords in proportion -/

/-- How often the keyword `k` stands among words. -/
def keywordCount (w : List String) (k : Keyword) : Nat := w.count k.text

@[simp] theorem keywordCount_nil (k : Keyword) : keywordCount [] k = 0 := rfl

@[simp] theorem keywordCount_append (u w : List String) (k : Keyword) :
    keywordCount (u ++ w) k = keywordCount u k + keywordCount w k := List.count_append

@[simp] theorem keywordCount_cons_self (k : Keyword) (w : List String) :
    keywordCount (k.text :: w) k = keywordCount w k + 1 := List.count_cons_self

/-- Any other word does not count. -/
theorem keywordCount_cons_of_ne {x : String} {k : Keyword} (h : x ≠ k.text) (w : List String) :
    keywordCount (x :: w) k = keywordCount w k := List.count_cons_of_ne h

/-- One keyword counts if it is the one that is counted. -/
theorem keywordCount_keyword_cons (l : Keyword) (w : List String) (k : Keyword) :
    keywordCount (l.text :: w) k = keywordCount w k + if l = k then 1 else 0 := by
  by_cases h : l = k
  · subst h
    simp
  · rw [keywordCount_cons_of_ne (fun heq => h (Keyword.text_injective heq)), if_neg h, Nat.add_zero]

/-- Conditions do not count. -/
@[simp] theorem keywordCount_condition_cons (c : Condition) (w : List String) (k : Keyword) :
    keywordCount (c.text :: w) k = keywordCount w k := by
  apply keywordCount_cons_of_ne
  cases c <;> cases k <;> decide

/-- Names do not count. -/
theorem keywordCount_name_cons {n : String} (h : isIdentifier n = true) (w : List String)
    (k : Keyword) : keywordCount (n :: w) k = keywordCount w k := by
  apply keywordCount_cons_of_ne
  rintro rfl
  simp at h

/-- Each word is at most one of two keywords. -/
theorem keywordCount_add_le {k l : Keyword} (h : k ≠ l) (w : List String) :
    keywordCount w k + keywordCount w l ≤ w.length := by
  induction w with
  | nil => simp
  | cons x w ih =>
    rw [List.length_cons]
    by_cases hk : x = k.text
    · subst hk
      rw [keywordCount_cons_self, keywordCount_keyword_cons, if_neg h]
      omega
    · by_cases hl : x = l.text
      · subst hl
        rw [keywordCount_cons_self, keywordCount_keyword_cons, if_neg (Ne.symm h)]
        omega
      · rw [keywordCount_cons_of_ne hk, keywordCount_cons_of_ne hl]
        omega

/-- The proportions of the keywords in statements and definitions. -/
structure Closed (w : List String) : Prop where
  program : keywordCount w .program = 0
  begin : keywordCount w .begin = 0
  is : keywordCount w .is = keywordCount w .instruction
  branches : keywordCount w .if_ = 2 * keywordCount w .then_
  loops : keywordCount w .while_ = 2 * keywordCount w .do_
  ends : keywordCount w .end_ =
    keywordCount w .instruction + keywordCount w .then_ + keywordCount w .do_

/-- The proportions of the keywords in a program. -/
structure Balanced (w : List String) : Prop where
  program : keywordCount w .program = 1
  begin : keywordCount w .begin = 1
  is : keywordCount w .is = keywordCount w .instruction + 1
  branches : keywordCount w .if_ = 2 * keywordCount w .then_
  loops : keywordCount w .while_ = 2 * keywordCount w .do_
  ends : keywordCount w .end_ =
    keywordCount w .instruction + 1 + keywordCount w .then_ + keywordCount w .do_

/-! ### Statements and drafts -/

theorem closed_nil : Closed [] := by
  constructor <;> rfl

theorem Closed.append {u w : List String} (hu : Closed u) (hw : Closed w) : Closed (u ++ w) := by
  obtain ⟨hp, hb, hi, hf, hl, he⟩ := hu
  obtain ⟨hp', hb', hi', hf', hl', he'⟩ := hw
  constructor <;> simp only [keywordCount_append] <;> omega

/-- **Statements** that call identifiers only hold their keywords in proportion. -/
theorem Statement.closed_words :
    (∀ s : Statement, (∀ n ∈ s.calls, isIdentifier n = true) → Closed s.words) ∧
      ∀ ss, (∀ n ∈ callsOf ss, isIdentifier n = true) → Closed (wordsOf ss) := by
  refine induction ?_ ?_ ?_ ?_ ?_ ?_ ?_
  · intro cs ih
    exact ih
  · intro c b ih h
    obtain ⟨hp, hb, hi, hf, hl, he⟩ := ih h
    constructor <;> simp [words, keywordCount_keyword_cons] <;> omega
  · intro c a b iha ihb h
    rw [calls, List.forall_mem_append] at h
    obtain ⟨hp, hb, hi, hf, hl, he⟩ := (iha h.1).append (ihb h.2)
    simp only [keywordCount_append] at hp hb hi hf hl he
    constructor <;> simp [words, keywordCount_keyword_cons] <;> omega
  · intro c b ih h
    obtain ⟨hp, hb, hi, hf, hl, he⟩ := ih h
    constructor <;> simp [words, keywordCount_keyword_cons] <;> omega
  · intro n h
    have hname : isIdentifier n = true := h n (by simp [calls])
    constructor <;> simp [words, keywordCount_name_cons hname]
  · intro _
    exact closed_nil
  · intro s ss ihs ihss h
    rw [callsOf, List.forall_mem_append] at h
    exact (ihs h.1).append (ihss h.2)

/-- A definition in order holds its keywords in proportion. -/
theorem Definition.WellFormed.closed_words {d : Definition} (h : d.WellFormed) :
    Closed d.words := by
  obtain ⟨hp, hb, hi, hf, hl, he⟩ := Statement.closed_words.2 d.body h.readable.named
  constructor <;>
    simp [Definition.words, keywordCount_keyword_cons, keywordCount_name_cons h.named] <;> omega

/-- So do definitions one behind the other. -/
theorem closed_words_definitions {ds : List Definition} (h : ∀ d ∈ ds, d.WellFormed) :
    Closed (ds.flatMap Definition.words) := by
  induction ds with
  | nil => exact closed_nil
  | cons d ds ih =>
    rw [List.forall_mem_cons] at h
    rw [List.flatMap_cons]
    exact h.1.closed_words.append (ih h.2)

/-- **Drafts** in order hold their keywords in proportion, with the end mark behind them. -/
theorem Draft.WellFormed.balanced {d : Draft} (h : d.WellFormed) :
    Balanced (d.words ++ [endMark]) := by
  have hmark : ∀ k, keywordCount [endMark] k = 0 := by
    intro k
    cases k <;> decide
  obtain ⟨hp, hb, hi, hf, hl, he⟩ := (closed_words_definitions h.definitions).append
    (Statement.closed_words.2 d.body h.readable.named)
  simp only [keywordCount_append] at hp hb hi hf hl he
  constructor <;>
    simp [Draft.words, hmark, keywordCount_keyword_cons, keywordCount_name_cons h.named] <;> omega

/-- The tokens of a program that is read hold their keywords in proportion. -/
theorem balanced_of_parseProgram {ts : Tokens} {p : Program}
    (h : (parseProgram ts).outcome = .ok p) : Balanced (texts ts) := by
  obtain ⟨d, hd, hwords, -⟩ := outcome_parseProgram.1 h
  rw [hwords]
  exact hd.balanced

/-! ### One word for another -/

/-- **One word for another.**  At most one word put in place of at most one other keeps the
    proportions only if each keyword but `ELSE` counts as before. -/
theorem Balanced.keywordCount_eq {u old new w : List String} (h : Balanced (u ++ old ++ w))
    (h' : Balanced (u ++ new ++ w)) (hold : old.length ≤ 1) (hnew : new.length ≤ 1)
    {k : Keyword} (hk : k ≠ .else_) : keywordCount old k = keywordCount new k := by
  obtain ⟨hp, hb, hi, hf, hl, he⟩ := h
  obtain ⟨hp', hb', hi', hf', hl', he'⟩ := h'
  simp only [keywordCount_append] at hp hb hi hf hl he hp' hb' hi' hf' hl' he'
  -- Each proportion relates keywords of which one word spells at most one.
  have hpair : ∀ {k l : Keyword}, k ≠ l →
      keywordCount old k + keywordCount old l ≤ 1 ∧ keywordCount new k + keywordCount new l ≤ 1 :=
    fun hne => ⟨Nat.le_trans (keywordCount_add_le hne old) hold,
      Nat.le_trans (keywordCount_add_le hne new) hnew⟩
  have hheads := hpair (show Keyword.is ≠ .instruction by decide)
  have hbranches := hpair (show Keyword.if_ ≠ .then_ by decide)
  have hloops := hpair (show Keyword.while_ ≠ .do_ by decide)
  cases k <;> first | omega | exact absurd rfl hk

/-! ### Slips -/

/-- A token that spells a keyword other than `ELSE`. -/
def Token.IsFirm (t : Token) : Prop := ∃ k : Keyword, k ≠ .else_ ∧ t.text = k.text

/-- The second tokens are the first ones but for a slip: one token is deleted, inserted or
    replaced by one with another text, and it, or the one in its place, spells a keyword
    other than `ELSE`. -/
inductive Slip : Tokens → Tokens → Prop
  | delete (before behind : Tokens) {t : Token} (firm : t.IsFirm) :
      Slip (before ++ t :: behind) (before ++ behind)
  | insert (before behind : Tokens) {t : Token} (firm : t.IsFirm) :
      Slip (before ++ behind) (before ++ t :: behind)
  | replace (before behind : Tokens) {t u : Token} (other : t.text ≠ u.text)
      (firm : t.IsFirm ∨ u.IsFirm) : Slip (before ++ t :: behind) (before ++ u :: behind)

/-- A slip puts at most one word in place of at most one other, and some keyword besides
    `ELSE` counts differently. -/
theorem Slip.exists_exchange {ts us : Tokens} (h : Slip ts us) :
    ∃ (u old new w : List String) (k : Keyword), texts ts = u ++ old ++ w ∧
      texts us = u ++ new ++ w ∧ old.length ≤ 1 ∧ new.length ≤ 1 ∧ k ≠ .else_ ∧
      keywordCount old k ≠ keywordCount new k := by
  cases h with
  | @delete before behind t firm =>
    obtain ⟨k, hk, ht⟩ := firm
    refine ⟨texts before, [t.text], [], texts behind, k, by simp, by simp, by simp, by simp, hk, ?_⟩
    simp [ht]
  | @insert before behind t firm =>
    obtain ⟨k, hk, ht⟩ := firm
    refine ⟨texts before, [], [t.text], texts behind, k, by simp, by simp, by simp, by simp, hk, ?_⟩
    simp [ht]
  | @replace before behind t u other firm =>
    -- The keyword is the one that is spelled before or after, and not both times.
    have hcount : ∃ k : Keyword, k ≠ .else_ ∧
        keywordCount [t.text] k ≠ keywordCount [u.text] k := by
      rcases firm with ⟨k, hk, ht⟩ | ⟨k, hk, hu⟩
      · refine ⟨k, hk, ?_⟩
        rw [ht, keywordCount_cons_of_ne (fun hu => other (ht.trans hu.symm))]
        simp
      · refine ⟨k, hk, ?_⟩
        rw [hu, keywordCount_cons_of_ne (fun ht => other (ht.trans hu.symm))]
        simp
    obtain ⟨k, hk, hne⟩ := hcount
    exact ⟨texts before, [t.text], [u.text], texts behind, k, by simp, by simp, by simp, by simp,
      hk, hne⟩

/-- **Slips are refused.**  If a program can be read from tokens, then a syntax error is told
    of the tokens that a slip of a keyword makes of them. -/
theorem parseProgram_refuses_slips {ts us : Tokens} {p : Program}
    (h : (parseProgram ts).outcome = .ok p) (hslip : Slip ts us) :
    ∃ s : SyntaxError, (parseProgram us).outcome = .error (.malformed s) := by
  obtain ⟨u, old, new, w, k, hts, hus, hold, hnew, hk, hne⟩ := hslip.exists_exchange
  have hbalanced : Balanced (u ++ old ++ w) := hts ▸ balanced_of_parseProgram h
  cases hread : (parseProgram us).outcome with
  | ok q =>
    have hbalanced' : Balanced (u ++ new ++ w) := hus ▸ balanced_of_parseProgram hread
    exact absurd (hbalanced.keywordCount_eq hbalanced' hold hnew hk) hne
  | error e =>
    obtain ⟨_, s, -, rfl, -⟩ := Rule.explained_program.exists_malformed hread
    exact ⟨s, rfl⟩

/-- An alternative that begins with `END` instead of `ELSE` is refused. -/
theorem parseProgram_refuses_end_for_else :
    let before := (tokenize "PROGRAM A IS BEGIN IF true THEN go").dropLast
    let behind := tokenize "skip END IF END A"
    (parseProgram (before ++ ⟨"ELSE", ⟨1, 36⟩⟩ :: behind)).outcome =
        .ok ⟨"A", .empty, .block [.ifElse .always [.call "go"] [.call "skip"]]⟩ ∧
      Slip (before ++ ⟨"ELSE", ⟨1, 36⟩⟩ :: behind) (before ++ ⟨"END", ⟨1, 36⟩⟩ :: behind) ∧
      ∃ s : SyntaxError,
        (parseProgram (before ++ ⟨"END", ⟨1, 36⟩⟩ :: behind)).outcome = .error (.malformed s) := by
  intro before behind
  have hread : (parseProgram (before ++ ⟨"ELSE", ⟨1, 36⟩⟩ :: behind)).outcome =
      .ok ⟨"A", .empty, .block [.ifElse .always [.call "go"] [.call "skip"]]⟩ := by decide +kernel
  have hslip : Slip (before ++ ⟨"ELSE", ⟨1, 36⟩⟩ :: behind)
      (before ++ ⟨"END", ⟨1, 36⟩⟩ :: behind) :=
    .replace before behind (by decide) (.inr ⟨.end_, by decide, rfl⟩)
  exact ⟨hread, hslip, parseProgram_refuses_slips hread hslip⟩

end BlockLanguage
