import BlockLanguage.Proofs.Conservation
import BlockLanguage.Proofs.Placement
import BlockLanguage.Proofs.Scanning
import BlockLanguage.Proofs.Triple

namespace BlockLanguage

/-!
# Where readings fail

Each step of a rule that can fail fails in one way, and the tokens taken until then and
those left show where.  What is reported follows from this, for whatever tokens are read.

* `Fault` — the ways to fail, with the tokens taken and left, one for each kind of step;
* `Plain`, `Lasting` — what holds of the tokens taken and goes on to hold while a block is
  read;
* `Rule.Upholds`, `Rule.upholds_block`, `Rule.faults_program` — the rules of the grammar fail
  in these ways only;
* `Entry.read`, `Entry.Fails`, `Entry.Fails.exists_reports` — the rules from the outside;
* `parsing_fails_with_syntax_errors` — no check is ever refused, no condition is unknown, and
  the tokens of a source are neither exhausted nor passed;
* `SyntaxError.Stands`, `parsing_stops_where_reported` — where an error stands.
-/

/-! ### The ways to fail -/

/-- Whether what is wanted is looked for without taking a token. -/
def Expected.sought : Expected → Bool
  | statement => true
  | definition => true
  | _ => false

/-- The end mark has not been taken. -/
def Unended (taken : Tokens) : Prop := ∀ u ∈ taken, u.text ≠ endMark

/-- A failure, with the tokens taken until then and those left.  A check that is refused may
    be refused anywhere; that none is, `Rule.Explained` tells. -/
inductive Fault : Failure → Tokens → Tokens → Prop
  | unexpected {taken rest : Tokens} {t : Token} {expected : Expected}
      (h : expected.sought = false) :
      Fault (.onToken t.position (.unexpected expected t.text)) (taken ++ [t]) rest
  | sought {taken more : Tokens} {t : Token} {expected : Expected} (h : expected.sought = true) :
      Fault (.onToken t.position (.unexpected expected t.text)) taken (t :: more)
  | tooDeep {taken more : Tokens} {t : Token}
      (h : t.text = Keyword.while_.text ∨ t.text = Keyword.if_.text) :
      Fault (.onToken t.position .tooDeep) taken (t :: more)
  | redefinesPrimitive {taken rest : Tokens} {t : Token} :
      Fault (.onToken t.position (.redefinesPrimitive t.text)) (taken ++ [t]) rest
  | nameMismatch {taken rest : Tokens} {t : Token} {of : Section} {opening : String} :
      Fault (.onToken t.position (.nameMismatch of opening t.text)) (taken ++ [t]) rest
  | duplicate {taken behind rest : Tokens} {opening t : Token}
      (h : opening.text = Keyword.instruction.text)
      (last : ∀ u ∈ t :: behind, u.text ≠ Keyword.instruction.text) :
      Fault (.onToken t.position (.duplicate t.text)) (taken ++ opening :: t :: behind) rest
  | afterEnd {taken more : Tokens} {mark t : Token} (h : mark.text = endMark) :
      Fault (.onToken t.position (.afterEnd t.text)) (taken ++ [mark]) (t :: more)
  | pastLast {taken : Tokens} {expected : Expected} (h : Unended taken) :
      Fault (.pastLast expected) taken []
  | refused {taken rest : Tokens} {violation : Violation} : Fault (.refused violation) taken rest

variable {α β : Type} {taken : Tokens} {t : Token}

/-! ### What holds while a block is read -/

/-- Words that stand inside statements and around them: neither the end mark nor the word
    that begins a definition. -/
def Plain (x : String) : Prop := x ≠ endMark ∧ x ≠ Keyword.instruction.text

theorem plain_keyword {k : Keyword} (h : k ≠ .instruction) : Plain k.text := by
  refine ⟨?_, fun heq => h (Keyword.text_injective heq)⟩
  cases k <;> decide

theorem plain_condition (c : Condition) : Plain c.text := by
  cases c <;> exact ⟨by decide, by decide⟩

theorem plain_of_isIdentifier {n : String} (h : isIdentifier n = true) : Plain n := by
  constructor
  · rintro rfl
    rw [isIdentifier_endMark] at h
    cases h
  · rintro rfl
    rw [isIdentifier_keyword] at h
    cases h

/-- What `I` says of the tokens taken it goes on to say when plain words are taken; and it
    tells that the end mark has not been taken. -/
structure Lasting (I : Tokens → Prop) : Prop where
  unended : ∀ taken, I taken → Unended taken
  extend : ∀ taken t, I taken → Plain t.text → I (taken ++ [t])

theorem Unended.snoc (h : Unended taken) (ht : t.text ≠ endMark) : Unended (taken ++ [t]) :=
  List.forall_mem_append.2 ⟨h, by simpa using ht⟩

theorem lasting_unended : Lasting Unended where
  unended := fun _ h => h
  extend := fun _ _ h ht => h.snoc ht.1

/-- The name `t` follows the last word that begins a definition, and the end mark has not
    been taken. -/
structure Names (t : Token) (taken : Tokens) : Prop where
  unended : Unended taken
  split : ∃ before opening behind, taken = before ++ opening :: t :: behind ∧
    opening.text = Keyword.instruction.text ∧
    ∀ u ∈ t :: behind, u.text ≠ Keyword.instruction.text

theorem lasting_names (t : Token) : Lasting (Names t) where
  unended := fun _ h => h.unended
  extend := by
    intro taken u h hu
    obtain ⟨hunended, before, opening, behind, rfl, hopening, hlast⟩ := h
    refine ⟨hunended.snoc hu.1, before, opening, behind ++ [u], by simp, hopening, ?_⟩
    rw [← List.cons_append, List.forall_mem_append]
    exact ⟨hlast, by simpa using hu.2⟩

namespace Rule

variable {I : Tokens → Prop} {P : Tokens → Prop} {Q : α → Tokens → Prop}

/-- The rule keeps what `I` says of the tokens taken, and fails in the ways of `Fault`. -/
abbrev Upholds (I : Tokens → Prop) (r : Rule α) : Prop := Triple I r (fun _ => I) Fault

/-! ### Steps -/

/-- A token is wanted that is not looked for: a wrong one has been taken. -/
theorem triple_token_fault {expected : Expected} (hexpected : expected.sought = false)
    {accept : Token → Option α} (hunended : ∀ taken, P taken → Unended taken)
    (hsome : ∀ taken t a, P taken → accept t = some a → Q a (taken ++ [t])) :
    Triple P (token expected accept) Q Fault :=
  triple_token (fun taken hP => .pastLast (hunended taken hP)) hsome
    fun _ _ _ _ _ => .unexpected hexpected

theorem triple_keyword {k : Keyword} (hunended : ∀ taken, P taken → Unended taken) :
    Triple P (keyword k) (fun _ taken => ∃ before t, taken = before ++ [t] ∧ P before ∧
      t.text = k.text) Fault := by
  refine triple_token_fault rfl hunended fun taken t a hP ht => ⟨taken, t, rfl, hP, ?_⟩
  split at ht
  · assumption
  · cases ht

theorem upholds_keyword (hI : Lasting I) {k : Keyword} (hk : k ≠ .instruction) :
    (keyword k).Upholds I := by
  refine (triple_keyword hI.unended).conseq (fun _ h => h) ?_ (fun _ _ _ h => h)
  rintro _ _ ⟨before, t, rfl, hbefore, ht⟩
  exact hI.extend before t hbefore (ht ▸ plain_keyword hk)

/-- The name that has been taken is the last token, for now. -/
theorem triple_identifier (hunended : ∀ taken, P taken → Unended taken) (role : Role) :
    Triple P (identifier role) (fun t taken => ∃ before, taken = before ++ [t] ∧ P before ∧
      isIdentifier t.text = true) Fault := by
  refine triple_token_fault rfl hunended fun taken t u hP ht => ?_
  split at ht
  · next hname =>
    obtain rfl := Option.some.inj ht
    exact ⟨taken, rfl, hP, hname⟩
  · cases ht

theorem upholds_identifier (hI : Lasting I) (role : Role) : (identifier role).Upholds I := by
  refine (triple_identifier hI.unended role).conseq (fun _ h => h) ?_ (fun _ _ _ h => h)
  rintro t _ ⟨before, rfl, hbefore, ht⟩
  exact hI.extend before t hbefore (plain_of_isIdentifier ht)

theorem upholds_condition (hI : Lasting I) (after : Keyword) : (condition after).Upholds I := by
  rw [condition_eq]
  refine triple_token_fault rfl hI.unended fun taken t c hP ht => ?_
  refine hI.extend taken t hP ?_
  rw [← Condition.ofText?_eq_some_iff.1 ht]
  exact plain_condition c

theorem upholds_pure (a : α) : (pure a : Rule α).Upholds I := triple_pure fun _ h => h

theorem upholds_checked (answer : Except Violation α) : (checked answer).Upholds I :=
  triple_checked (fun _ _ h _ => h) fun _ _ _ _ => .refused

/-! ### Statements and blocks -/

theorem upholds_closing (hI : Lasting I) {k : Keyword} (hk : k ≠ .instruction) :
    (closing k).Upholds I :=
  (upholds_keyword hI (by decide)).bind fun _ => upholds_keyword hI hk

variable {inner : Rule (List Statement)}

theorem upholds_loop (hI : Lasting I) (h : inner.Upholds I) : (loop inner).Upholds I :=
  (upholds_keyword hI (by decide)).bind fun _ => (upholds_condition hI _).bind fun _ =>
    (upholds_keyword hI (by decide)).bind fun _ => h.bind fun _ =>
    (upholds_closing hI (by decide)).bind fun _ => upholds_checked _

theorem upholds_branchEnd (hI : Lasting I) (h : inner.Upholds I) (c : Condition)
    (thenBody : List Statement) (hasElse : Bool) :
    (branchEnd inner c thenBody hasElse).Upholds I := by
  cases hasElse with
  | false => exact (upholds_closing hI (by decide)).bind fun _ => upholds_checked _
  | true =>
    exact (upholds_keyword hI (by decide)).bind fun _ => h.bind fun _ =>
      (upholds_closing hI (by decide)).bind fun _ => upholds_checked _

theorem upholds_branch (hI : Lasting I) (h : inner.Upholds I) : (branch inner).Upholds I :=
  (upholds_keyword hI (by decide)).bind fun _ => (upholds_condition hI _).bind fun _ =>
    (upholds_keyword hI (by decide)).bind fun _ => h.bind fun _ =>
    triple_lookAhead_bind fun _ => upholds_branchEnd hI h _ _ _

theorem upholds_call (hI : Lasting I) : call.Upholds I :=
  (upholds_identifier hI _).bind fun _ => upholds_pure _

/-- A compound statement that may not be opened is refused in front of its first word. -/
theorem meets_opened (hI : Lasting I) {k : Keyword} (hk : k = .while_ ∨ k = .if_)
    {compound : Rule (List Statement) → Rule Statement} {inner : Option (Rule (List Statement))}
    (hcompound : ∀ block ∈ inner, (compound block).Upholds I) {ts : Tokens} (htaken : I taken)
    (hts : startsWith k ts = true) :
    Reading.Meets (fun _ => I) Fault taken ts ((opened inner compound).read ts) := by
  cases inner with
  | some block => exact hcompound block rfl taken ts htaken
  | none =>
    show Reading.Meets _ _ _ _ ((failAtFront .statement fun _ => .tooDeep).read ts)
    refine meets_failAtFront (fun _ => .pastLast (hI.unended taken htaken)) ?_
    rintro t more rfl
    have ht : t.text = k.text := by simpa [startsWith] using hts
    refine .tooDeep ?_
    rcases hk with rfl | rfl
    · exact .inl ht
    · exact .inr ht

theorem upholds_selected (hI : Lasting I) {inner : Option (Rule (List Statement))}
    (h : ∀ block ∈ inner, block.Upholds I) : (selected inner).Upholds I := by
  intro taken ts htaken
  simp only [selected]
  split
  · next hwhile =>
    exact meets_opened hI (.inl rfl) (fun b hb => upholds_loop hI (h b hb)) htaken hwhile
  · split
    · next hif =>
      exact meets_opened hI (.inr rfl) (fun b hb => upholds_branch hI (h b hb)) htaken hif
    · split
      · exact upholds_call hI taken ts htaken
      · refine meets_failAtFront (fun _ => .pastLast (hI.unended taken htaken)) ?_
        rintro t more rfl
        exact .sought rfl

theorem upholds_statementOver (hI : Lasting I) {inner : Option (Rule (List Statement))}
    (h : ∀ block ∈ inner, block.Upholds I) : (statementOver inner).Upholds I :=
  (upholds_selected hI h).bind fun _ => (triple_emit _).bind fun _ => upholds_pure _

theorem upholds_blockOf {item : Rule Statement} {progress : item.Progresses}
    (h : item.Upholds I) : (blockOf item progress).Upholds I :=
  Triple.bind (triple_iterate (fun _ => h.bind fun _ => upholds_pure _) _) fun _ => upholds_pure _

/-- **Statements under a budget.** -/
theorem upholds_statement (hI : Lasting I) (budget : Nat) : (statement budget).Upholds I := by
  induction budget with
  | zero => exact upholds_statementOver hI nofun
  | succ budget ih =>
    rw [statement_succ]
    apply upholds_statementOver hI
    rintro _ ⟨⟩
    exact upholds_blockOf ih

theorem upholds_block (hI : Lasting I) (budget : Nat) : (block budget).Upholds I :=
  upholds_blockOf (upholds_statement hI budget)

/-! ### Programs -/

theorem upholds_closingName (hI : Lasting I) (of : Section) (role : Role) (opening : Token) :
    (closingName of role opening).Upholds I := by
  refine (triple_identifier hI.unended role).bind fun t => Triple.conseq (triple_require ?_)
    (fun _ h => h) ?_ (fun _ _ _ h => h)
  · rintro _ rest ⟨before, rfl, -, -⟩ -
    exact .nameMismatch
  · rintro _ _ ⟨before, rfl, hbefore, ht⟩
    exact hI.extend before t hbefore (plain_of_isIdentifier ht)

/-- The name behind the word that begins a definition. -/
theorem names_of_taken {before : Tokens} {opening name : Token} (hbefore : Unended before)
    (hopening : opening.text = Keyword.instruction.text) (hname : isIdentifier name.text = true) :
    Names name (before ++ [opening] ++ [name]) := by
  have hplain := plain_of_isIdentifier hname
  refine ⟨(hbefore.snoc ?_).snoc hplain.1, before, opening, [], by simp, hopening, ?_⟩
  · rw [hopening]
    decide
  · simpa using hplain.2

/-- Behind a definition its name still follows the last word that begins one. -/
theorem triple_definition :
    Triple Unended definition (fun d taken => Names d.1 taken) Fault := by
  have hunended : ∀ taken : Tokens, (∃ before t, taken = before ++ [t] ∧ Unended before ∧
      t.text = Keyword.instruction.text) → Unended taken := by
    rintro _ ⟨before, t, rfl, hbefore, ht⟩
    apply hbefore.snoc
    rw [ht]
    decide
  refine (triple_keyword fun _ h => h).bind fun _ => (triple_identifier hunended _).bind
    fun name => (triple_require ?_).bind fun _ => Triple.conseq (P := Names name) ?_ ?_
      (fun _ _ h => h) (fun _ _ _ h => h)
  · rintro _ rest ⟨before, rfl, -, -⟩ -
    exact .redefinesPrimitive
  · have hnames := lasting_names name
    exact (upholds_keyword hnames (by decide)).bind fun _ => (upholds_block hnames _).bind fun _ =>
      (upholds_keyword hnames (by decide)).bind fun _ => (upholds_closingName hnames _ _ _).bind
      fun _ => (upholds_checked _).bind fun _ => (triple_emit _).bind fun _ =>
      triple_pure fun _ h => h
  · rintro _ ⟨_, rfl, ⟨before, opening, rfl, hbefore, hopening⟩, hname⟩
    exact names_of_taken hbefore hopening hname

theorem upholds_defined (context : Context) : (defined context).Upholds Unended := by
  refine triple_definition.bind fun d => (triple_require ?_).bind fun _ =>
    triple_pure fun _ h => h.unended
  rintro _ rest ⟨-, before, opening, behind, rfl, hopening, hlast⟩ -
  exact .duplicate hopening hlast

theorem upholds_define (context : Context) : (define context).Upholds Unended := by
  intro taken ts htaken
  simp only [define]
  split
  · exact upholds_defined context taken ts htaken
  · refine meets_failAtFront (fun _ => .pastLast htaken) ?_
    rintro t more rfl
    exact .sought rfl

/-- Behind the end mark no token is wanted. -/
theorem triple_endOfInput : Triple Unended endOfInput (fun _ _ => True) Fault := by
  have hmark : Triple Unended (token .endOfInput fun t => if t.isEnd then some () else none)
      (fun _ taken => ∃ before mark, taken = before ++ [mark] ∧ mark.text = endMark) Fault := by
    refine triple_token_fault rfl (fun _ h => h) fun taken t a _ ht => ⟨taken, t, rfl, ?_⟩
    split at ht
    · next hend => simpa [Token.isEnd] using hend
    · cases ht
  refine hmark.bind fun _ => ?_
  rintro _ ts ⟨before, mark, rfl, hend⟩
  cases ts with
  | nil => exact .took_none trivial
  | cons t more => exact .failed_none (.afterEnd hend)

/-- **Programs** fail in these ways only. -/
theorem faults_program : Triple Unended program (fun _ _ => True) Fault := by
  have hI := lasting_unended
  exact (upholds_keyword hI (by decide)).bind fun _ => (upholds_identifier hI _).bind fun _ =>
    (upholds_keyword hI (by decide)).bind fun _ => (triple_iterate upholds_define _).bind fun _ =>
    (upholds_keyword hI (by decide)).bind fun _ => (upholds_block hI _).bind fun _ =>
    (upholds_keyword hI (by decide)).bind fun _ => (upholds_closingName hI _ _ _).bind fun _ =>
    triple_endOfInput.bind fun _ => (triple_emit _).bind fun _ => (upholds_checked _).bind
    fun _ => (upholds_checked _).bind fun _ => (upholds_checked _).bind fun _ =>
    triple_pure fun _ _ => trivial

/-- **Texts of statements** fail in these ways only. -/
theorem faults_statementText : Triple Unended statementText (fun _ _ => True) Fault :=
  (upholds_block lasting_unended _).bind fun _ => triple_endOfInput.bind fun _ =>
    triple_pure fun _ _ => trivial

/-- A failure shows the tokens taken until then. -/
theorem Triple.exists_fault {r : Rule α} (hr : Triple Unended r Q Fault) {ts : Tokens}
    {f : Failure} (h : (r.read ts).outcome = .error f) :
    ∃ consumed, ts = consumed ++ (r.read ts).rest ∧ Fault f consumed (r.read ts).rest := by
  have hmeets := hr [] ts nofun
  generalize r.read ts = answer at h hmeets ⊢
  cases hmeets with
  | took => cases h
  | @failed used _ _ _ split fault =>
    cases h
    exact ⟨used, split, fault⟩

end Rule

/-! ### From the outside -/

/-- The error `err` tells of a failure on `ts`, at which `consumed` had been taken and `rest`
    was left. -/
inductive Reports (ts consumed rest : Tokens) (err : Error) : Prop
  | intro {f : Failure} {s : SyntaxError} (fault : Fault f consumed rest)
      (located : Rule.located ts f = .malformed s) (eq : err = .malformed s)

/-- From the outside a rule that is never refused a check reports a fault. -/
theorem Rule.Triple.exists_reports {r : Rule α} {Q : α → Tokens → Prop}
    (hr : Triple Unended r Q Fault) (hexplained : r.Explained) {ts : Tokens} {err : Error}
    (h : (r.run ts).outcome = .error err) :
    ∃ consumed, ts = consumed ++ (r.run ts).rest ∧ Reports ts consumed (r.run ts).rest err := by
  obtain ⟨f, s, hread, heq, -, hlocated⟩ := hexplained.exists_malformed h
  obtain ⟨consumed, hsplit, hfault⟩ := hr.exists_fault hread
  exact ⟨consumed, hsplit, hfault, hlocated, heq⟩

namespace Entry

/-- What a reading answers when it succeeds. -/
abbrev Value : Entry → Type
  | statement => Statement
  | block => Statement
  | program => Program

/-- The reading of the tokens `ts`. -/
def read : (e : Entry) → Tokens → Reading Error e.Value
  | statement, ts => parseStatement ts
  | block, ts => parseBlock ts
  | program, ts => parseProgram ts

/-- The reading of the tokens `ts` fails with the error `err`. -/
def Fails (e : Entry) (ts : Tokens) (err : Error) : Prop := (e.read ts).outcome = .error err

end Entry

/-- A reading that fails reports a fault. -/
theorem Entry.Fails.exists_reports {e : Entry} {ts : Tokens} {err : Error} (h : e.Fails ts err) :
    ∃ consumed, ts = consumed ++ e.rest ts ∧ Reports ts consumed (e.rest ts) err := by
  have hblock := Rule.upholds_block lasting_unended nestingLimit
  cases e with
  | statement =>
    exact (Rule.upholds_statement lasting_unended _).exists_reports (Rule.explained_statement _) h
  | block =>
    exact Rule.Triple.exists_reports (Rule.Triple.bind hblock fun _ => Rule.upholds_pure _)
      ((Rule.explained_block _).map _) h
  | program => exact Rule.faults_program.exists_reports Rule.explained_program h

/-- A text of statements that is refused reports a fault. -/
theorem exists_reports_of_parseStatements {source : String} {err : Error}
    (h : parseStatements source = .error err) :
    ∃ consumed rest, tokenize source = consumed ++ rest ∧
      Reports (tokenize source) consumed rest err := by
  have hexplained : Rule.statementText.Explained :=
    (Rule.follows_statementText (C := .fresh .empty)).explained <|
      Sentences.possible_statements (Sentences.possible_word.2 (Sentences.possible_done _))
  obtain ⟨consumed, h⟩ := Rule.faults_statementText.exists_reports hexplained h
  exact ⟨consumed, _, h⟩

/-! ### Failures that do not happen -/

namespace Reports

variable {ts consumed rest : Tokens} {err : Error}

/-- A report is a syntax error, and no condition is unknown. -/
theorem exists_malformed (h : Reports ts consumed rest err) :
    ∃ s : SyntaxError, err = .malformed s ∧ ∀ found, s.cause ≠ .unknownCondition found := by
  obtain ⟨hfault, hlocated, rfl⟩ := h
  refine ⟨_, rfl, ?_⟩
  cases hfault <;> cases hlocated <;> nofun

/-- The tokens of a source end with the only end mark, so a rule neither looks for tokens
    behind them nor finds one behind the mark. -/
theorem within_source {source : String} (hsplit : tokenize source = consumed ++ rest)
    (h : Reports (tokenize source) consumed rest err) :
    ∃ s : SyntaxError, err = .malformed s ∧ (∀ expected, s.cause ≠ .exhausted expected) ∧
      ∀ found, s.cause ≠ .afterEnd found := by
  obtain ⟨init, p, hsource, hinit⟩ := exists_tokenize_eq source
  obtain ⟨hfault, hlocated, rfl⟩ := h
  refine ⟨_, rfl, ?_⟩
  rw [hsource] at hsplit
  cases hfault with
  | pastLast hunended =>
    have hmark : Token.atEnd p ∈ consumed := by
      rw [List.append_nil] at hsplit
      exact hsplit ▸ List.mem_append_right _ (List.mem_singleton_self _)
    exact absurd rfl (hunended _ hmark)
  | @afterEnd before more mark t hmark =>
    -- The mark that was taken is not the last token, so it is one of those in front of it.
    have hfront : init = before ++ [mark] ++ (t :: more).dropLast :=
      calc init = (init ++ [Token.atEnd p]).dropLast := List.dropLast_concat.symm
        _ = (before ++ [mark] ++ t :: more).dropLast := by rw [hsplit]
        _ = before ++ [mark] ++ (t :: more).dropLast :=
          List.dropLast_append_of_ne_nil (List.cons_ne_nil t more)
    exact absurd hmark (hinit mark (by simp [hfront]))
  | refused => cases hlocated
  | _ => cases hlocated; exact ⟨nofun, nofun⟩

end Reports

/-- **Parsing fails with syntax errors only.**  Whatever tokens are read as a program, a
    statement or a block, a failure is a syntax error, so no part that has been read is ever
    refused by the operations that put a program together; and no word that passes for a
    condition turns out to be unknown.  The tokens of a source are never exhausted, and none
    is found behind its end. -/
theorem parsing_fails_with_syntax_errors :
    (∀ (e : Entry) (ts : Tokens) (err : Error), e.Fails ts err →
      ∃ s : SyntaxError, err = .malformed s ∧ ∀ found, s.cause ≠ .unknownCondition found) ∧
    ∀ (source : String) (err : Error), parse source = .error err ∨
        parseStatements source = .error err →
      ∃ s : SyntaxError, err = .malformed s ∧ (∀ expected, s.cause ≠ .exhausted expected) ∧
        ∀ found, s.cause ≠ .afterEnd found := by
  refine ⟨fun e ts err h => ?_, fun source err h => ?_⟩
  · obtain ⟨consumed, -, hreports⟩ := h.exists_reports
    exact hreports.exists_malformed
  · rcases h with h | h
    · have hfails : Entry.program.Fails (tokenize source) err := h
      obtain ⟨consumed, hsplit, hreports⟩ := hfails.exists_reports
      exact hreports.within_source hsplit
    · obtain ⟨consumed, rest, hsplit, hreports⟩ := exists_reports_of_parseStatements h
      exact hreports.within_source hsplit

/-- A list that breaks off behind a loop's condition, with no end mark, and a source that does:
    both are refused with a syntax error, but only the first is exhausted. -/
theorem parsing_fails_with_syntax_errors_at_broken_loop :
    let ts := (tokenize "WHILE random").dropLast
    let exhausted : SyntaxError := ⟨⟨1, 7⟩, .exhausted (.keyword .do_)⟩
    let early : SyntaxError := ⟨⟨1, 13⟩, .unexpected (.keyword .do_) endMark⟩
    (Entry.block.Fails ts (.malformed exhausted) ∧
      ∃ s : SyntaxError, Error.malformed exhausted = .malformed s ∧
        ∀ found, s.cause ≠ .unknownCondition found) ∧
    parseStatements "WHILE random" = .error (.malformed early) ∧
      ∃ s : SyntaxError, Error.malformed early = .malformed s ∧
        (∀ expected, s.cause ≠ .exhausted expected) ∧ ∀ found, s.cause ≠ .afterEnd found := by
  intro ts exhausted early
  have hblock : Entry.block.Fails ts (.malformed exhausted) := by
    show (parseBlock ts).outcome = _
    decide +kernel
  have hsource : parseStatements "WHILE random" = .error (.malformed early) := by decide +kernel
  exact ⟨⟨hblock, parsing_fails_with_syntax_errors.1 _ _ _ hblock⟩, hsource,
    parsing_fails_with_syntax_errors.2 _ _ (.inr hsource)⟩

/-! ### Where errors stand -/

/-- The token that a cause is about, with `consumed` taken and `rest` left: the next one where
    a token was looked at only, and elsewhere the one taken last. -/
def Cause.offending (consumed rest : Tokens) : Cause → Option Token
  | unexpected expected _ => if expected.sought then rest.head? else consumed.getLast?
  | afterEnd _ => rest.head?
  | tooDeep => rest.head?
  | _ => consumed.getLast?

/-- What a cause tells of the token that it is about. -/
def Cause.Concerns : Cause → Token → Prop
  | unexpected _ found, t => t.text = found
  | afterEnd found, t => t.text = found
  | tooDeep, t => t.text = Keyword.while_.text ∨ t.text = Keyword.if_.text
  | redefinesPrimitive name, t => t.text = name
  | nameMismatch _ _ closing, t => t.text = closing
  | _, _ => False

/-- Where an error stands, with `consumed` taken and `rest` left: a second definition at its
    name, behind the last word that begins a definition; the want of a token at the last one,
    with none left; anything else at the token that it is about. -/
def SyntaxError.Stands (consumed rest : Tokens) (s : SyntaxError) : Prop :=
  match s.cause with
  | .duplicate name => ∃ before opening t behind, consumed = before ++ opening :: t :: behind ∧
      opening.text = Keyword.instruction.text ∧
      (∀ u ∈ t :: behind, u.text ≠ Keyword.instruction.text) ∧
      t.text = name ∧ s.position = t.position
  | .exhausted _ => rest = [] ∧ ∃ t, consumed.getLast? = some t ∧ s.position = t.position
  | cause => ∃ t, cause.offending consumed rest = some t ∧ cause.Concerns t ∧
      s.position = t.position

/-- **Where one error stands.**  On an empty list every error stands at the start. -/
theorem Reports.stands {ts consumed rest : Tokens} {err : Error} (hsplit : ts = consumed ++ rest)
    (h : Reports ts consumed rest err) :
    ∃ s : SyntaxError, err = .malformed s ∧ (ts = [] → s.position = .start) ∧
      (ts ≠ [] → s.Stands consumed rest) := by
  obtain ⟨hfault, hlocated, rfl⟩ := h
  refine ⟨_, rfl, ?_⟩
  cases hfault with
  | unexpected h =>
    cases hlocated
    exact ⟨by simp [hsplit], fun _ => ⟨_, by simp [Cause.offending, h], rfl, rfl⟩⟩
  | sought h =>
    cases hlocated
    exact ⟨by simp [hsplit], fun _ => ⟨_, by simp [Cause.offending, h], rfl, rfl⟩⟩
  | tooDeep h =>
    cases hlocated
    exact ⟨by simp [hsplit], fun _ => ⟨_, rfl, h, rfl⟩⟩
  | redefinesPrimitive =>
    cases hlocated
    exact ⟨by simp [hsplit], fun _ => ⟨_, by simp [Cause.offending], rfl, rfl⟩⟩
  | nameMismatch =>
    cases hlocated
    exact ⟨by simp [hsplit], fun _ => ⟨_, by simp [Cause.offending], rfl, rfl⟩⟩
  | duplicate h last =>
    cases hlocated
    exact ⟨by simp [hsplit], fun _ => ⟨_, _, _, _, rfl, h, last, rfl, rfl⟩⟩
  | afterEnd h =>
    cases hlocated
    exact ⟨by simp [hsplit], fun _ => ⟨_, rfl, rfl, rfl⟩⟩
  | pastLast h =>
    cases hlocated
    rw [List.append_nil] at hsplit
    subst hsplit
    refine ⟨fun hnil => by simp [hnil, Rule.lastPosition], fun hne => ⟨rfl, ?_⟩⟩
    exact ⟨ts.getLast hne, List.getLast?_eq_some_getLast hne, by
      simp [Rule.lastPosition, List.getLast?_eq_some_getLast hne]⟩
  | refused => cases hlocated

/-- **Parsing stops where it reports.**  Whatever tokens are read as a program, a statement or
    a block, a failure is a syntax error that stands where the tokens taken and the tokens left
    meet, or at the name of the definition just taken; on no tokens it stands at the start of
    a text. -/
theorem parsing_stops_where_reported (e : Entry) (ts : Tokens) (err : Error)
    (h : e.Fails ts err) :
    ∃ (s : SyntaxError) (consumed : Tokens), err = .malformed s ∧ ts = consumed ++ e.rest ts ∧
      (ts = [] → s.position = .start) ∧ (ts ≠ [] → s.Stands consumed (e.rest ts)) := by
  obtain ⟨consumed, hsplit, hreports⟩ := h.exists_reports
  obtain ⟨s, heq, hstands⟩ := hreports.stands hsplit
  exact ⟨s, consumed, heq, hsplit, hstands⟩

/-- A second definition of one name, its body a loop, stands at the name, far in front of the
    last token taken. -/
theorem parsing_stops_behind_second_definition :
    let ts := tokenize "PROGRAM P IS INSTRUCTION a IS END a
      INSTRUCTION a IS WHILE random DO END WHILE END a BEGIN END P"
    let second : SyntaxError := ⟨⟨2, 19⟩, .duplicate "a"⟩
    Entry.program.Fails ts (.malformed second) ∧
      ∃ (s : SyntaxError) (consumed : Tokens), Error.malformed second = .malformed s ∧
        ts = consumed ++ Entry.program.rest ts ∧ (ts = [] → s.position = .start) ∧
        (ts ≠ [] → s.Stands consumed (Entry.program.rest ts)) := by
  intro ts second
  have hfails : Entry.program.Fails ts (.malformed second) := by
    show (parseProgram ts).outcome = _
    decide +kernel
  exact ⟨hfails, parsing_stops_where_reported _ _ _ hfails⟩

end BlockLanguage
