import BlockLanguage.Parse
import BlockLanguage.Proofs.ProgramRules

namespace BlockLanguage

/-!
# What is accepted

A rule that follows a set of sentences accepts exactly these.  For whole programs
the set is that of the drafts in order, each behind its words and the end mark; for
texts of statements it is that of lists of readable statements.

* `Rule.Exhausts` — a success leaves no token;
* `Rule.Follows.ok_iff` — what a rule that follows and exhausts accepts;
* `Rule.readable_of_ok`, `Rule.allReadable_of_ok` — what has been read is readable;
* `parseProgram_accepts_drafts` — the programs that are accepted;
* `outcome_readStatements` — the lists of statements that are accepted.
-/

namespace Rule

variable {V α β : Type} {C : Proviso} {G : Sentences V} {H : α → Sentences V}

/-! ### Rules that leave no token -/

/-- A success of `r` leaves no token. -/
def Exhausts (r : Rule α) : Prop := ∀ ts a, (r.read ts).outcome = .ok a → (r.read ts).rest = []

/-- The first rule leaves no token, so neither does a second one behind it. -/
theorem Exhausts.bind {r : Rule α} {f : α → Rule β} (hr : r.Exhausts) (hf : ∀ a, (f a).Keeps) :
    (r >>= f).Exhausts := by
  intro ts b
  have hnil := hr ts
  rw [read_bind]
  match r.read ts, hnil with
  | ⟨.error _, _, _⟩, _ => nofun
  | ⟨.ok a, rest, _⟩, hnil =>
    intro _
    obtain rfl : rest = [] := hnil a rfl
    have hsuffix := hf a []
    exact List.suffix_nil.1 hsuffix

/-- The second rule leaves no token, whatever the first one does. -/
theorem exhausts_behind {r : Rule α} {f : α → Rule β} (hf : ∀ a, (f a).Exhausts) :
    (r >>= f).Exhausts := by
  intro ts b
  rw [read_bind]
  match r.read ts with
  | ⟨.error _, _, _⟩ => nofun
  | ⟨.ok a, rest, _⟩ => exact hf a rest b

/-- Behind the end mark no token is left. -/
theorem exhausts_endOfInput : endOfInput.Exhausts := by
  apply exhausts_behind
  intro _ ts a h
  cases ts with
  | nil => rfl
  | cons t ts => cases h

theorem exhausts_program : program.Exhausts :=
  exhausts_behind fun _ => exhausts_behind fun _ => exhausts_behind fun _ =>
  exhausts_behind fun _ => exhausts_behind fun _ => exhausts_behind fun _ =>
  exhausts_behind fun _ => exhausts_behind fun _ => exhausts_endOfInput.bind fun _ =>
  (keeps_emit _).bind fun _ => (keeps_checked _).bind fun _ => (keeps_checked _).bind fun _ =>
  (keeps_checked _).bind fun _ => keeps_pure _

/-! ### Accepted token lists -/

/-- A sentence is accepted, with what is left of it behind the words read. -/
theorem Follows.accepts {r : Rule α} (hr : r.Follows C G H) {ts : Tokens} {v : V}
    (h : G (texts ts) v) :
    ∃ a, (r.read ts).outcome = .ok a ∧ H a (texts (r.read ts).rest) v := by
  have hfollows := hr ts ⟨_, v, h⟩
  generalize r.read ts = answer at hfollows ⊢
  -- The sentence refutes both kinds of failure.
  cases hfollows with
  | took split possible sound complete =>
    refine ⟨_, rfl, complete _ v rfl ?_⟩
    rw [← texts_append, ← split]
    exact h
  | stopped split blamed viable impossible =>
    rw [split, texts_append] at h
    exact absurd h (impossible _ v)
  | ended viable unfinished => exact absurd h (unfinished v)

/-- What is accepted is a sentence if what is left is one of those behind it. -/
theorem Follows.sound {r : Rule α} (hr : r.Follows C G H) (hG : G.Possible) {ts : Tokens} {a : α}
    (h : (r.read ts).outcome = .ok a) {v : V} (hv : H a (texts (r.read ts).rest) v) :
    G (texts ts) v := by
  have hfollows := hr ts hG
  generalize r.read ts = answer at hfollows h hv
  cases hfollows with
  | took split possible sound complete =>
    obtain rfl := Except.ok.inj h
    rw [split, texts_append]
    exact sound _ v hv
  | stopped => cases h
  | ended => cases h

/-- What is accepted leaves a sentence. -/
theorem Follows.possible_of_ok {r : Rule α} (hr : r.Follows C G H) (hG : G.Possible) {ts : Tokens}
    {a : α} (h : (r.read ts).outcome = .ok a) : (H a).Possible := by
  have hfollows := hr ts hG
  generalize r.read ts = answer at hfollows h
  cases hfollows with
  | took split possible sound complete =>
    obtain rfl := Except.ok.inj h
    exact possible
  | stopped => cases h
  | ended => cases h

/-- **Acceptance.**  A rule that follows the sentences `G` to the end accepts the
    tokens that spell one, with its meaning. -/
theorem Follows.ok_iff {r : Rule V} (hr : r.Follows C G .done) (hG : G.Possible)
    (hexhausts : r.Exhausts) {ts : Tokens} {v : V} :
    (r.read ts).outcome = .ok v ↔ G (texts ts) v := by
  constructor
  · intro h
    -- No token is left, and nothing more is the one sentence behind a success.
    have hnil := hexhausts ts v h
    refine hr.sound hG h ⟨?_, rfl⟩
    rw [hnil, texts_nil]
  · intro h
    obtain ⟨a, hok, -, rfl⟩ := hr.accepts h
    exact hok

/-- Running a rule from the outside succeeds as the rule does. -/
theorem outcome_run {r : Rule α} {ts : Tokens} {a : α} :
    (r.run ts).outcome = .ok a ↔ (r.read ts).outcome = .ok a := by
  show (r.read ts).outcome.mapError (located ts) = .ok a ↔ _
  cases (r.read ts).outcome with
  | error e => exact ⟨nofun, nofun⟩
  | ok b =>
    constructor
    · intro h
      cases h
      rfl
    · intro h
      cases h
      rfl

/-- A rule whose value is changed succeeds with the changed value. -/
theorem outcome_map {r : Rule α} {f : α → β} {ts : Tokens} {b : β} :
    ((f <$> r).read ts).outcome = .ok b ↔ ∃ a, (r.read ts).outcome = .ok a ∧ f a = b := by
  show ((r >>= fun a => pure (f a)).read ts).outcome = .ok b ↔ _
  rw [read_bind]
  match r.read ts with
  | ⟨.error _, _, _⟩ => simp
  | ⟨.ok a, _, _⟩ => simp

end Rule

/-! ### Statements -/

namespace Rule

variable {budget : Nat} {ts : Tokens}

/-- A statement that has been read is readable. -/
theorem readable_of_ok {s : Statement} (h : ((statement budget).read ts).outcome = .ok s) :
    s.Readable budget := by
  -- Nothing is left behind a statement that is not readable.
  have hgiven : ∀ t : Statement, t.Readable budget →
      (Sentences.given (t.Readable budget) (.done ())).Possible := fun t ht =>
    Sentences.possible_given ht (Sentences.possible_done ())
  have hfollows := follows_statement (C := .fresh .empty) budget _ hgiven
  obtain ⟨_, _, hread, _⟩ := hfollows.possible_of_ok (Sentences.possible_statement hgiven) h
  exact hread

/-- Lists of readable statements and the end mark, each with the list. -/
def blockSentences (budget : Nat) : Sentences (List Statement) :=
  .statements budget fun body => .word endMark (.done body)

theorem possible_blockSentences (budget : Nat) : (blockSentences budget).Possible :=
  Sentences.possible_statements (Sentences.possible_word.2 (Sentences.possible_done []))

/-- The rule of blocks reads statements in front of the end mark. -/
theorem follows_block_endMark (budget : Nat) :
    (block budget).Follows C (blockSentences budget) fun body =>
      .given (Statement.AllReadable budget body) (.word endMark (.done body)) :=
  readsBlocks_block budget _
    (fun body _ => Sentences.possible_word.2 (Sentences.possible_done body))
    fun _ => Sentences.endsBlock_word (.inr (.inr rfl))

/-- Statements that have been read as a block are readable. -/
theorem allReadable_of_ok {ss : List Statement} (h : ((block budget).read ts).outcome = .ok ss) :
    Statement.AllReadable budget ss := by
  have hfollows := follows_block_endMark (C := .fresh .empty) budget
  obtain ⟨_, _, hread, _⟩ := hfollows.possible_of_ok (possible_blockSentences budget) h
  exact hread

/-- The words of readable statements in front of the end mark are read as these
    statements. -/
theorem read_block_of_words {ss : List Statement} (hss : Statement.AllReadable budget ss)
    (hts : texts ts = Statement.wordsOf ss ++ [endMark]) :
    ((block budget).read ts).outcome = .ok ss := by
  have hsentence : blockSentences budget (texts ts) ss := ⟨ss, _, hts, hss, [], rfl, rfl, rfl⟩
  have hfollows := follows_block_endMark (C := .fresh .empty) budget
  obtain ⟨body, hok, -, k, -, -, rfl⟩ := hfollows.accepts hsentence
  exact hok

end Rule

/-! ### Programs -/

/-- Outcomes can be compared where their values and errors can. -/
instance decidableEqExcept {ε α : Type} [DecidableEq ε] [DecidableEq α] :
    DecidableEq (Except ε α)
  | .ok a, .ok b => decidable_of_iff (a = b) (by simp)
  | .error d, .error e => decidable_of_iff (d = e) (by simp)
  | .ok _, .error _ => .isFalse nofun
  | .error _, .ok _ => .isFalse nofun

/-- A program is accepted exactly from the words of a draft in order that writes
    it, with the end mark behind them. -/
theorem outcome_parseProgram {ts : Tokens} {p : Program} :
    (parseProgram ts).outcome = .ok p ↔
      ∃ d : Draft, d.WellFormed ∧ texts ts = d.words ++ [endMark] ∧ p = d.program := by
  rw [parseProgram, Rule.outcome_run, ← Rule.programSentences_iff]
  exact Rule.follows_program.ok_iff Rule.possible_programSentences Rule.exhausts_program

/-- **Accepted programs.**  Tokens are accepted as a program exactly when they spell
    a draft in order and the end mark behind it.  The program then has the name and
    the body of this draft, its context maps what the draft defines and nothing
    else, and no token is left. -/
theorem parseProgram_accepts_drafts (ts : Tokens) :
    ((∃ p, (parseProgram ts).outcome = .ok p) ↔
      ∃ d : Draft, d.WellFormed ∧ texts ts = d.words ++ [endMark]) ∧
    ∀ p, (parseProgram ts).outcome = .ok p → (parseProgram ts).rest = [] ∧
      ∀ d : Draft, d.WellFormed → texts ts = d.words ++ [endMark] → d.Denotes p := by
  refine ⟨⟨?_, ?_⟩, ?_⟩
  · intro h
    obtain ⟨p, h⟩ := h
    obtain ⟨d, hd, hwords, -⟩ := outcome_parseProgram.1 h
    exact ⟨d, hd, hwords⟩
  · intro h
    obtain ⟨d, hd, hwords⟩ := h
    exact ⟨d.program, outcome_parseProgram.2 ⟨d, hd, hwords, rfl⟩⟩
  · intro p h
    have hread := Rule.outcome_run.1 h
    refine ⟨Rule.exhausts_program ts p hread, fun d hd hwords => ?_⟩
    have hsame : (parseProgram ts).outcome = .ok d.program :=
      outcome_parseProgram.2 ⟨d, hd, hwords, rfl⟩
    rw [h] at hsame
    exact hd.denotes_iff.2 (Except.ok.inj hsame)

/-- A program that calls its own instruction is accepted, and its tokens spell a draft. -/
theorem parseProgram_accepts_own_call :
    (parseProgram (tokenize "PROGRAM A IS INSTRUCTION B IS END B BEGIN B END A")).outcome =
        .ok ⟨"A", Context.empty.insert "B" (.block []), .block [.call "B"]⟩ ∧
      ∃ d : Draft, d.WellFormed ∧
        texts (tokenize "PROGRAM A IS INSTRUCTION B IS END B BEGIN B END A") =
          d.words ++ [endMark] := by
  have hread : (parseProgram
      (tokenize "PROGRAM A IS INSTRUCTION B IS END B BEGIN B END A")).outcome =
        .ok ⟨"A", Context.empty.insert "B" (.block []), .block [.call "B"]⟩ := by decide +kernel
  exact ⟨hread, (parseProgram_accepts_drafts _).1.1 ⟨_, hread⟩⟩

/-! ### Texts of statements -/

/-- The rule of texts that hold nothing but statements. -/
def Rule.statementText : Rule Statement := do
  let body ← Rule.block nestingLimit
  Rule.endOfInput
  return .block body

/-- Lists of readable statements and the end mark, each with its block. -/
def Rule.textSentences : Sentences Statement :=
  .statements nestingLimit fun body => .word endMark (.done (.block body))

theorem Rule.follows_statementText {C : Proviso} :
    statementText.Follows C textSentences .done := by
  refine (readsBlocks_block nestingLimit _ ?_ ?_).bind fun body => Follows.given fun _ =>
    (follows_endOfInput _).bind fun _ => follows_pure _
  · intro body _
    exact Sentences.possible_word.2 (Sentences.possible_done _)
  · exact fun body => Sentences.endsBlock_word (.inr (.inr rfl))

/-- A text of statements is accepted exactly if its tokens spell readable
    statements and the end mark behind them. -/
theorem outcome_readStatements {source : String} {s : Statement} :
    parseStatements source = .ok s ↔
      ∃ body, Statement.AllReadable nestingLimit body ∧
        texts (tokenize source) = Statement.wordsOf body ++ [endMark] ∧ s = .block body := by
  have hexhausts : Rule.statementText.Exhausts := Rule.exhausts_behind fun _ =>
    Rule.exhausts_endOfInput.bind fun _ => Rule.keeps_pure _
  have hpossible : Rule.textSentences.Possible := Sentences.possible_statements
    (Sentences.possible_word.2 (Sentences.possible_done _))
  have hok : (Rule.statementText.read (tokenize source)).outcome = .ok s ↔
      Rule.textSentences (texts (tokenize source)) s :=
    (Rule.follows_statementText (C := .fresh .empty)).ok_iff hpossible hexhausts
  show (Rule.statementText.run (tokenize source)).outcome = .ok s ↔ _
  rw [Rule.outcome_run, hok]
  constructor
  · intro h
    obtain ⟨body, _, hwords, hbody, _, rfl, rfl, rfl⟩ := h
    exact ⟨body, hbody, hwords, rfl⟩
  · intro h
    obtain ⟨body, hbody, hwords, rfl⟩ := h
    exact ⟨body, _, hwords, hbody, _, rfl, rfl, rfl⟩

end BlockLanguage
