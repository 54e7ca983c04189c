import BlockLanguage.Proofs.Acceptance

namespace BlockLanguage

/-!
# What one reading takes

From the front of any tokens, complete or not, the rule of statements takes the words
of one readable statement and nothing else; the rule of blocks takes those of readable
statements up to a token that closes a block.  What stands behind is left as it is.

* `Sentences.left` — the words behind a value that has been read;
* `Rule.Takes` — a rule takes the words of its value and leaves what stands behind them;
* `Rule.Follows.takes` — how this is seen from the sentences that a rule follows;
* `Rule.stops_iterate` — a repetition that succeeds has come to its stop;
* `Rule.takes_statement`, `Rule.takes_block` — the rules under a budget;
* `parse_takes_words` — reading a statement, or a block, from the front of any tokens.
-/

/-- Words of which `ends` holds, with `a` as what has been read in front of them. -/
def Sentences.left {α : Type} (ends : List String → Prop) (a : α) :
    Sentences (α × List String) := fun w v => v = (a, w) ∧ ends w

namespace Rule

variable {α : Type} {r : Rule α} {words : α → List String} {good : α → Prop}
  {ends : List String → Prop} {budget : Nat}

/-- The rule takes the words of a good value, with words of which `ends` holds behind
    them, and leaves these.  On other tokens it fails. -/
def Takes (r : Rule α) (words : α → List String) (good : α → Prop)
    (ends : List String → Prop) : Prop :=
  ∀ (ts : Tokens) (a : α) (rest : Tokens),
    ((r.read ts).outcome = .ok a ∧ (r.read ts).rest = rest) ↔
      ∃ used, ts = used ++ rest ∧ texts used = words a ∧ good a ∧ ends (texts rest)

/-- **From sentences to tokens.**  A rule takes the words of its value if the sentences
    that it follows begin with such words and end with what it leaves. -/
theorem Follows.takes {C : Proviso} {G : Sentences (α × List String)}
    (hr : r.Follows C G fun a => .given (good a) (.left ends a)) (hG : G.Possible)
    (hiff : ∀ w a k, G w (a, k) ↔ w = words a ++ k ∧ good a ∧ ends k) (hkeeps : r.Keeps)
    (hends : ∀ ts a, (r.read ts).outcome = .ok a → ends (texts (r.read ts).rest)) :
    r.Takes words good ends := by
  intro ts a rest
  constructor
  · intro h
    obtain ⟨hok, rfl⟩ := h
    obtain ⟨used, hused⟩ := hkeeps ts
    obtain ⟨_, _, hgood, -⟩ := hr.possible_of_ok hG hok
    have hleft := hends ts a hok
    -- What is left makes a sentence of all tokens, which begins with the words of the value.
    have hsentence : G (texts ts) (a, texts (r.read ts).rest) :=
      hr.sound hG hok ⟨hgood, rfl, hleft⟩
    obtain ⟨hwords, -, -⟩ := (hiff _ _ _).1 hsentence
    have hsplit : texts ts = texts used ++ texts (r.read ts).rest := by
      rw [← texts_append, hused]
    rw [hsplit] at hwords
    exact ⟨used, hused.symm, List.append_cancel_right hwords, hgood, hleft⟩
  · intro h
    obtain ⟨used, rfl, hwords, hgood, hleft⟩ := h
    have hsentence : G (texts (used ++ rest)) (a, texts rest) := by
      rw [texts_append, hwords]
      exact (hiff _ _ _).2 ⟨rfl, hgood, hleft⟩
    obtain ⟨b, hok, -, hvalue, -⟩ := hr.accepts hsentence
    obtain ⟨rfl, htexts⟩ := Prod.mk.inj hvalue
    -- Both are ends of the same tokens, and as long as each other.
    have hlength : (r.read (used ++ rest)).rest.length = rest.length :=
      (length_eq_of_texts_eq htexts).symm
    obtain ⟨used', hused'⟩ := hkeeps (used ++ rest)
    exact ⟨hok, (List.append_inj' hused' hlength).2⟩

/-! ### Statements -/

/-- **Statements under a budget.**  The rule takes the words of one readable statement,
    whatever stands behind them. -/
theorem takes_statement (budget : Nat) :
    (statement budget).Takes Statement.words (Statement.Readable budget) fun _ => True := by
  have hpossible : ∀ s : Statement, s.Readable budget →
      (Sentences.given (s.Readable budget) (.left (fun _ => True) s)).Possible := fun s hs =>
    ⟨[], (s, []), hs, rfl, trivial⟩
  refine (follows_statement (C := .fresh .empty) budget _ hpossible).takes
    (Sentences.possible_statement hpossible) ?_ (keeps_statement budget) fun _ _ _ => trivial
  intro w s k
  constructor
  · intro h
    obtain ⟨_, _, rfl, hs, -, hvalue, -⟩ := h
    obtain ⟨rfl, rfl⟩ := Prod.mk.inj hvalue
    exact ⟨rfl, hs, trivial⟩
  · intro h
    obtain ⟨rfl, hs, -⟩ := h
    exact ⟨s, k, rfl, hs, hs, rfl, trivial⟩

/-! ### Blocks -/

/-- Where the rule succeeds, the tokens that it leaves are where `stop` says. -/
def Stops (stop : Tokens → Bool) (r : Rule α) : Prop :=
  ∀ ts a, (r.read ts).outcome = .ok a → stop (r.read ts).rest = true

/-- A repetition that succeeds has come to its stop. -/
theorem stops_iterate {σ : Type} {stop : Tokens → Bool} {step : σ → Rule σ}
    {progress : ∀ s, (step s).Progresses} {s : σ} :
    (iterate stop step progress s).Stops stop := by
  intro ts s' h
  simp only [iterate] at h ⊢
  fun_induction iterateFrom stop step progress s ts with
  | case1 s ts hstop => exact hstop
  | case2 s ts hstop e rest events hread => cases h
  | case3 s ts hstop t rest events hread reading ih => exact ih h

/-- What is made of the value does not change where a rule stops. -/
theorem Stops.map {stop : Tokens → Bool} {β : Type} (hr : r.Stops stop) (f : α → β) :
    (r >>= fun a => pure (f a)).Stops stop := by
  intro ts b h
  rw [read_bind] at h ⊢
  have hfirst := hr ts
  generalize r.read ts = first at h hfirst ⊢
  obtain ⟨_ | a, rest, events⟩ := first
  · cases h
  · exact hfirst a rfl

/-- A block that has been read ends there. -/
theorem stops_block (budget : Nat) : (block budget).Stops atBlockEnd := stops_iterate.map _

/-- **Blocks under a budget.**  The rule takes the words of readable statements up to a
    token that closes a block, or to the last one. -/
theorem takes_block (budget : Nat) :
    (block budget).Takes Statement.wordsOf (Statement.AllReadable budget)
      fun w => ∀ x ∈ w.head?, Closes x := by
  have hpossible : ∀ ss : List Statement,
      (Sentences.left (fun w => ∀ x ∈ w.head?, Closes x) ss).Possible := fun ss =>
    ⟨[], (ss, []), rfl, nofun⟩
  refine (readsBlocks_block (C := .fresh .empty) budget _ (fun ss _ => hpossible ss) ?_).takes
    (Sentences.possible_statements (hpossible [])) ?_ (keeps_block budget) ?_
  · intro ss w v h
    exact h.2
  · intro w ss k
    constructor
    · intro h
      obtain ⟨_, _, rfl, hss, hvalue, hends⟩ := h
      obtain ⟨rfl, rfl⟩ := Prod.mk.inj hvalue
      exact ⟨rfl, hss, hends⟩
    · intro h
      obtain ⟨rfl, hss, hends⟩ := h
      exact ⟨ss, k, rfl, hss, rfl, hends⟩
  · exact fun ts ss h => atBlockEnd_iff.1 (stops_block budget ts ss h)

end Rule

/-! ### From the outside -/

/-- Running a rule from the outside leaves what the rule leaves. -/
@[simp] theorem Rule.rest_run {α : Type} (r : Rule α) (ts : Tokens) :
    (r.run ts).rest = (r.read ts).rest := rfl

/-- What `parseBlock` reads is a block of what its rule reads. -/
theorem outcome_parseBlock {ts : Tokens} {s : Statement} :
    (parseBlock ts).outcome = .ok s ↔
      ∃ ss, ((Rule.block nestingLimit).read ts).outcome = .ok ss ∧ .block ss = s := by
  rw [parseBlock, Rule.outcome_run, Rule.outcome_map]

/-- What `parseBlock` leaves is what its rule leaves. -/
theorem rest_parseBlock (ts : Tokens) :
    (parseBlock ts).rest = ((Rule.block nestingLimit).read ts).rest := by
  show ((Rule.block nestingLimit >>= fun ss => pure (Statement.block ss)).read ts).rest = _
  rw [Rule.read_bind]
  rcases (Rule.block nestingLimit).read ts with ⟨_ | _, _, _⟩
  · rfl
  · rfl

/-- **What one reading takes.**  From the front of any tokens a statement is read exactly
    if they begin with the words of a readable one, and what stands behind is left and does
    not matter.  A block is read, and as such, exactly if the tokens begin with the words of
    readable statements behind which no token is left, or one that closes a block; this one
    is left too. -/
theorem parse_takes_words (ts rest : Tokens) :
    (∀ s, ((parseStatement ts).outcome = .ok s ∧ (parseStatement ts).rest = rest) ↔
      ∃ used, ts = used ++ rest ∧ texts used = s.words ∧ s.Readable nestingLimit) ∧
    (∀ s, (parseStatement ts).outcome = .ok s → (parseStatement ts).rest = rest →
      ∃ used, ts = used ++ rest ∧ ∀ other, (parseStatement (used ++ other)).outcome = .ok s ∧
        (parseStatement (used ++ other)).rest = other) ∧
    (∀ s, ((parseBlock ts).outcome = .ok s ∧ (parseBlock ts).rest = rest) ↔
      ∃ used ss, s = .block ss ∧ ts = used ++ rest ∧ texts used = Statement.wordsOf ss ∧
        Statement.AllReadable nestingLimit ss ∧ ∀ x ∈ (texts rest).head?, Closes x) := by
  have hstatement : ∀ (ts rest : Tokens) (s : Statement),
      ((parseStatement ts).outcome = .ok s ∧ (parseStatement ts).rest = rest) ↔
        ∃ used, ts = used ++ rest ∧ texts used = s.words ∧ s.Readable nestingLimit := by
    intro ts rest s
    rw [parseStatement, Rule.outcome_run, Rule.rest_run]
    simpa using Rule.takes_statement nestingLimit ts s rest
  refine ⟨hstatement ts rest, ?_, ?_⟩
  · intro s hok hrest
    obtain ⟨used, hts, hwords, hs⟩ := (hstatement ts rest s).1 ⟨hok, hrest⟩
    exact ⟨used, hts, fun other => (hstatement _ other s).2 ⟨used, rfl, hwords, hs⟩⟩
  · intro s
    rw [outcome_parseBlock, rest_parseBlock]
    constructor
    · intro h
      obtain ⟨⟨ss, hok, rfl⟩, hrest⟩ := h
      obtain ⟨used, h⟩ := (Rule.takes_block nestingLimit ts ss rest).1 ⟨hok, hrest⟩
      exact ⟨used, ss, rfl, h⟩
    · intro h
      obtain ⟨used, ss, rfl, h⟩ := h
      obtain ⟨hok, hrest⟩ := (Rule.takes_block nestingLimit ts ss rest).2 ⟨used, h⟩
      exact ⟨⟨ss, hok, rfl⟩, hrest⟩

/-- A loop is taken in front of `ELSE`, and would be taken in front of anything else. -/
theorem parse_takes_loop_before_else :
    ((parseStatement (tokenize "WHILE true DO go END WHILE ELSE")).outcome =
        .ok (.whileDo .always [.call "go"]) ∧
      (parseStatement (tokenize "WHILE true DO go END WHILE ELSE")).rest =
        [⟨"ELSE", ⟨1, 28⟩⟩, Token.atEnd ⟨1, 32⟩]) ∧
    ∃ used, tokenize "WHILE true DO go END WHILE ELSE" =
        used ++ [⟨"ELSE", ⟨1, 28⟩⟩, Token.atEnd ⟨1, 32⟩] ∧
      ∀ other, (parseStatement (used ++ other)).outcome = .ok (.whileDo .always [.call "go"]) ∧
        (parseStatement (used ++ other)).rest = other := by
  have hok : (parseStatement (tokenize "WHILE true DO go END WHILE ELSE")).outcome =
      .ok (.whileDo .always [.call "go"]) := by decide +kernel
  have hrest : (parseStatement (tokenize "WHILE true DO go END WHILE ELSE")).rest =
      [⟨"ELSE", ⟨1, 28⟩⟩, Token.atEnd ⟨1, 32⟩] := by decide +kernel
  exact ⟨⟨hok, hrest⟩, (parse_takes_words _ _).2.1 _ hok hrest⟩

end BlockLanguage
