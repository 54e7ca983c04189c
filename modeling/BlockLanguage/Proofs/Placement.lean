import BlockLanguage.Proofs.Acceptance

namespace BlockLanguage

/-!
# Where tokens stand does not matter

Two readings of tokens with the same texts, wherever the tokens stand, go on alike: they
answer the same value, or fail for the same reason, and leave the same texts.  A rule
reads alike if its steps do, so this is shown step by step for the rules of the grammar.

* `Failure.reason` — what a failure says, apart from the place;
* `Reading.Alike`, `Rule.Alike` — two answers, and the answers of two rules, to tokens
  with the same texts;
* `Rule.Alike.bind`, `Rule.placeless_iterate` — rules behind each other, and repetitions;
* `Rule.placeless_statement`, `Rule.placeless_program` — the rules of the grammar;
* `Rule.Explained` — a rule is never refused a check, so its failures are syntax errors;
* `Agree` — outcomes that are the same apart from places;
* `readings_agree_on_texts` — tokens, and sources, with the same texts are read alike.
-/

/-- What a failure says, apart from where it is. -/
def Failure.reason : Failure → Except Violation Cause
  | onToken _ cause => .ok cause
  | pastLast expected => .ok (.exhausted expected)
  | refused violation => .error violation

variable {α β α' β' : Type} {R : α → α' → Prop} {S : β → β' → Prop} {ts ts' : Tokens}

/-! ### Rules that read alike -/

/-- Two answers are alike: the values are related by `R`, or both fail for the same
    reason; the texts left and the events are the same. -/
inductive Reading.Alike (R : α → α' → Prop) : Reading Failure α → Reading Failure α' → Prop
  | took {a : α} {a' : α'} {rest rest' : Tokens} {events : List Event} (value : R a a')
      (left : texts rest = texts rest') : Alike R ⟨.ok a, rest, events⟩ ⟨.ok a', rest', events⟩
  | failed {e e' : Failure} {rest rest' : Tokens} {events : List Event}
      (reason : e.reason = e'.reason) (left : texts rest = texts rest') :
      Alike R ⟨.error e, rest, events⟩ ⟨.error e', rest', events⟩

/-- One reading behind another: if the first two are alike and so are those behind them,
    then the whole is. -/
theorem Reading.Alike.bind {r : Rule α} {r' : Rule α'} {f : α → Rule β} {f' : α' → Rule β'}
    (hr : Reading.Alike R (r.read ts) (r'.read ts'))
    (hf : ∀ a a', (r.read ts).outcome = .ok a → R a a' →
      texts (r.read ts).rest = texts (r'.read ts').rest →
      Reading.Alike S ((f a).read (r.read ts).rest) ((f' a').read (r'.read ts').rest)) :
    Reading.Alike S ((r >>= f).read ts) ((r' >>= f').read ts') := by
  rw [Rule.read_bind, Rule.read_bind]
  generalize r.read ts = first at hr hf
  generalize r'.read ts' = first' at hr hf
  cases hr with
  | failed reason left => exact .failed reason left
  | took value left =>
    have hsecond := hf _ _ rfl value left
    simp only
    generalize (f _).read _ = second at hsecond ⊢
    generalize (f' _).read _ = second' at hsecond ⊢
    cases hsecond with
    | took value' left' => exact .took value' left'
    | failed reason' left' => exact .failed reason' left'

namespace Rule

/-- Two rules answer alike wherever they are given the same texts. -/
def Alike (R : α → α' → Prop) (r : Rule α) (r' : Rule α') : Prop :=
  ∀ ts ts', texts ts = texts ts' → Reading.Alike R (r.read ts) (r'.read ts')

/-- One rule behind another. -/
theorem Alike.bind {r : Rule α} {r' : Rule α'} {f : α → Rule β} {f' : α' → Rule β'}
    (hr : r.Alike R r') (hf : ∀ a a', R a a' → (f a).Alike S (f' a')) :
    (r >>= f).Alike S (r' >>= f') := fun ts ts' hts =>
  (hr ts ts' hts).bind fun a a' _ ha => hf a a' ha _ _

/-- A rule does not see where its tokens stand. -/
abbrev Placeless (r : Rule α) : Prop := r.Alike Eq r

/-- One rule behind another, where the first one answers the same. -/
theorem Placeless.bind {r : Rule α} {f : α → Rule β} {f' : α → Rule β'} (hr : r.Placeless)
    (hf : ∀ a, (f a).Alike S (f' a)) : (r >>= f).Alike S (r >>= f') := by
  apply Alike.bind hr
  rintro a _ rfl
  exact hf a

/-! ### Steps that read no token -/

theorem alike_pure {a : α} {a' : α'} (h : R a a') : (pure a : Rule α).Alike R (pure a') :=
  fun _ _ hts => .took h hts

theorem placeless_pure (a : α) : (pure a : Rule α).Placeless := alike_pure rfl

theorem placeless_emit (event : Event) : (emit event).Placeless := fun _ _ hts => .took rfl hts

theorem placeless_checked (answer : Except Violation α) : (checked answer).Placeless := by
  intro ts ts' hts
  cases answer with
  | ok a => exact .took rfl hts
  | error v => exact .failed rfl hts

theorem alike_failAt (p p' : Position) (cause : Cause) :
    (failAt p cause : Rule α).Alike R (failAt p' cause : Rule α') := fun _ _ hts => .failed rfl hts

/-- A check does not see where its failure is told. -/
theorem alike_require (holds : Bool) (p p' : Position) (cause : Cause) :
    (require holds p cause).Alike Eq (require holds p' cause) := by
  cases holds with
  | false => exact alike_failAt p p' cause
  | true => exact placeless_pure ()

theorem alike_failAtFront (expected : Expected) (cause : String → Cause) :
    (failAtFront expected cause : Rule α).Alike R (failAtFront expected cause : Rule α') := by
  intro ts ts' hts
  cases ts with
  | nil =>
    obtain rfl : ts' = [] := List.map_eq_nil_iff.1 hts.symm
    exact .failed rfl rfl
  | cons t ts =>
    cases ts' with
    | nil => cases hts
    | cons t' ts' =>
      refine .failed ?_ hts
      rw [(List.cons.inj hts).1]
      rfl

/-! ### Steps that read one token -/

/-- **Reading a token.**  It is enough that tokens with the same text have related
    values, or none. -/
theorem alike_token {expected : Expected} {accept : Token → Option α}
    {accept' : Token → Option α'}
    (h : ∀ t t' : Token, t.text = t'.text → Option.Rel R (accept t) (accept' t')) :
    (token expected accept).Alike R (token expected accept') := by
  intro ts ts' hts
  cases ts with
  | nil =>
    obtain rfl : ts' = [] := List.map_eq_nil_iff.1 hts.symm
    exact .failed rfl rfl
  | cons t ts =>
    cases ts' with
    | nil => cases hts
    | cons t' ts' =>
      obtain ⟨htext, hrest⟩ := List.cons.inj hts
      have hvalue := h t t' htext
      generalize hval : accept t = val at hvalue
      generalize hval' : accept' t' = val' at hvalue
      cases hvalue with
      | some value =>
        rw [read_token_some expected hval, read_token_some expected hval']
        exact .took value hrest
      | none =>
        rw [read_token_none expected hval, read_token_none expected hval']
        refine .failed ?_ hrest
        rw [htext]
        rfl

theorem placeless_keyword (k : Keyword) : (keyword k).Placeless := by
  refine alike_token fun t t' htext => ?_
  rw [htext]
  split
  · exact .some rfl
  · exact .none

/-- Two tokens have the same text. -/
def SameText (t t' : Token) : Prop := t.text = t'.text

/-- The names taken have the same text. -/
theorem alike_identifier (role : Role) : (identifier role).Alike SameText (identifier role) := by
  refine alike_token fun t t' htext => ?_
  rw [htext]
  split
  · exact .some htext
  · exact .none

theorem placeless_condition (after : Keyword) : (condition after).Placeless := by
  rw [condition_eq]
  refine alike_token fun t t' htext => ?_
  rw [htext]
  cases Condition.ofText? t'.text with
  | none => exact .none
  | some c => exact .some rfl

theorem placeless_endOfInput : endOfInput.Placeless := by
  have hmark : (token .endOfInput fun t => if t.isEnd then some () else none).Placeless := by
    refine alike_token fun t t' htext => ?_
    rw [Token.isEnd, Token.isEnd, htext]
    split
    · exact .some rfl
    · exact .none
  refine hmark.bind fun _ => ?_
  -- Behind the end mark both are at an end, or both fail at the token that is left.
  intro ts ts' hts
  cases ts with
  | nil =>
    obtain rfl : ts' = [] := List.map_eq_nil_iff.1 hts.symm
    exact .took rfl rfl
  | cons t ts =>
    cases ts' with
    | nil => cases hts
    | cons t' ts' =>
      refine .failed ?_ hts
      rw [(List.cons.inj hts).1]
      rfl

/-! ### Repetition -/

/-- A repetition reads alike if its step does and its stop sees texts only. -/
theorem placeless_iterate {σ : Type} {stop : Tokens → Bool} {step : σ → Rule σ}
    {progress : ∀ s, (step s).Progresses}
    (hstop : ∀ ts ts', texts ts = texts ts' → stop ts = stop ts')
    (hstep : ∀ s, (step s).Placeless) (s : σ) : (iterate stop step progress s).Placeless := by
  intro ts ts' hts
  -- The number of tokens left bounds the repetition.
  induction hn : ts.length using Nat.strongRecOn generalizing s ts ts' with
  | ind n ih =>
    have hboth := hstop ts ts' hts
    cases h : stop ts with
    | true =>
      rw [h] at hboth
      rw [read_iterate_stop h, read_iterate_stop hboth.symm]
      exact .took rfl hts
    | false =>
      rw [h] at hboth
      rw [read_iterate_step h, read_iterate_step hboth.symm]
      refine (hstep s ts ts' hts).bind ?_
      rintro t _ hok rfl hrest
      exact ih _ (hn ▸ progress s ts t hok) t _ _ hrest rfl

/-! ### Statements -/

theorem startsWith_congr (k : Keyword) (hts : texts ts = texts ts') :
    startsWith k ts = startsWith k ts' := by
  rw [Bool.eq_iff_iff, startsWith_iff, startsWith_iff, hts]

theorem startsWithName_congr (hts : texts ts = texts ts') :
    startsWithName ts = startsWithName ts' := by
  rw [Bool.eq_iff_iff, startsWithName_iff, startsWithName_iff, hts]

theorem atBlockEnd_congr (hts : texts ts = texts ts') : atBlockEnd ts = atBlockEnd ts' := by
  rw [Bool.eq_iff_iff, atBlockEnd_iff, atBlockEnd_iff, hts]

variable {inner : Rule (List Statement)}

theorem placeless_closing (k : Keyword) : (closing k).Placeless :=
  (placeless_keyword _).bind fun _ => placeless_keyword k

theorem placeless_loop (h : inner.Placeless) : (loop inner).Placeless :=
  (placeless_keyword _).bind fun _ => (placeless_condition _).bind fun _ =>
    (placeless_keyword _).bind fun _ => h.bind fun _ => (placeless_closing _).bind fun _ =>
    placeless_checked _

theorem placeless_branchEnd (h : inner.Placeless) (c : Condition) (thenBody : List Statement)
    (hasElse : Bool) : (branchEnd inner c thenBody hasElse).Placeless := by
  cases hasElse with
  | false => exact (placeless_closing _).bind fun _ => placeless_checked _
  | true =>
    exact (placeless_keyword _).bind fun _ => h.bind fun _ => (placeless_closing _).bind
      fun _ => placeless_checked _

theorem placeless_branch (h : inner.Placeless) : (branch inner).Placeless := by
  have hlook : (lookAhead (startsWith .else_)).Placeless := fun ts ts' hts =>
    .took (startsWith_congr .else_ hts) hts
  exact (placeless_keyword _).bind fun _ => (placeless_condition _).bind fun _ =>
    (placeless_keyword _).bind fun _ => h.bind fun _ => hlook.bind fun _ =>
    placeless_branchEnd h _ _ _

/-- A call is made of the text of its name. -/
theorem placeless_call : call.Placeless := by
  apply (alike_identifier _).bind
  intro t t' htext
  exact alike_pure (congrArg Statement.call htext)

theorem placeless_opened {inner : Option (Rule (List Statement))}
    {compound : Rule (List Statement) → Rule Statement}
    (h : ∀ block ∈ inner, (compound block).Placeless) : (opened inner compound).Placeless := by
  cases inner with
  | none => exact alike_failAtFront .statement fun _ => .tooDeep
  | some block => exact h block rfl

theorem placeless_selected {inner : Option (Rule (List Statement))}
    (h : ∀ block ∈ inner, block.Placeless) : (selected inner).Placeless := by
  intro ts ts' hts
  simp only [selected, startsWith_congr _ hts, startsWithName_congr hts]
  split
  · exact placeless_opened (fun b hb => placeless_loop (h b hb)) ts ts' hts
  · split
    · exact placeless_opened (fun b hb => placeless_branch (h b hb)) ts ts' hts
    · split
      · exact placeless_call ts ts' hts
      · exact alike_failAtFront _ _ ts ts' hts

theorem placeless_statementOver {inner : Option (Rule (List Statement))}
    (h : ∀ block ∈ inner, block.Placeless) : (statementOver inner).Placeless :=
  (placeless_selected h).bind fun _ => (placeless_emit _).bind fun _ => placeless_pure _

theorem placeless_blockOf {item : Rule Statement} {progress : item.Progresses}
    (h : item.Placeless) : (blockOf item progress).Placeless :=
  Placeless.bind (placeless_iterate (fun _ _ hts => atBlockEnd_congr hts)
    (fun _ => h.bind fun _ => placeless_pure _) _) fun _ => placeless_pure _

/-- **Statements under a budget** are read wherever they stand. -/
theorem placeless_statement (budget : Nat) : (statement budget).Placeless := by
  induction budget with
  | zero => exact placeless_statementOver nofun
  | succ budget ih =>
    rw [statement_succ]
    apply placeless_statementOver
    rintro _ ⟨⟩
    exact placeless_blockOf ih

theorem placeless_block (budget : Nat) : (block budget).Placeless :=
  placeless_blockOf (placeless_statement budget)

/-! ### Programs -/

/-- The end of a section sees the text of its opening name only. -/
theorem alike_closingName (of : Section) (role : Role) {opening opening' : Token}
    (h : SameText opening opening') :
    (closingName of role opening).Alike Eq (closingName of role opening') := by
  apply (alike_identifier role).bind
  intro t t' htext
  rw [SameText] at h htext
  rw [h, htext]
  exact alike_require _ _ _ _

/-- The token of a name and a body: the names have the same text, and the bodies are the
    same. -/
def SameDefinition (d d' : Token × List Statement) : Prop := SameText d.1 d'.1 ∧ d.2 = d'.2

theorem alike_definition : definition.Alike SameDefinition definition := by
  refine (placeless_keyword _).bind fun _ => (alike_identifier _).bind fun t t' htext => ?_
  have hclosing := alike_closingName .instruction .instructionClosing htext
  have hanswer : ∀ body, SameDefinition (t, body) (t', body) := fun _ => ⟨htext, rfl⟩
  rw [SameText] at htext
  rw [htext]
  exact (alike_require _ _ _ _).bind fun _ _ _ => (placeless_keyword _).bind fun _ =>
    (placeless_block _).bind fun body => (placeless_keyword _).bind fun _ =>
    hclosing.bind fun _ _ _ => (placeless_checked _).bind fun _ => (placeless_emit _).bind fun _ =>
    alike_pure (hanswer body)

/-- Whether a name is taken, the text of the name tells. -/
theorem placeless_defined (context : Context) : (defined context).Placeless := by
  apply alike_definition.bind
  rintro ⟨t, body⟩ ⟨t', _⟩ ⟨htext, rfl⟩
  have hname : t.text = t'.text := htext
  simp only [hname]
  exact (alike_require _ _ _ _).bind fun _ _ _ => placeless_pure _

theorem placeless_define (context : Context) : (define context).Placeless := by
  intro ts ts' hts
  simp only [define, startsWith_congr _ hts]
  split
  · exact placeless_defined context ts ts' hts
  · exact alike_failAtFront _ _ ts ts' hts

/-- **Whole programs** are read wherever their tokens stand. -/
theorem placeless_program : program.Placeless := by
  refine (placeless_keyword _).bind fun _ => (alike_identifier _).bind fun t t' htext => ?_
  have hclosing := alike_closingName .program .programClosing htext
  rw [SameText] at htext
  rw [htext]
  exact (placeless_keyword _).bind fun _ =>
    (placeless_iterate (fun _ _ hts => startsWith_congr _ hts) placeless_define _).bind fun _ =>
    (placeless_keyword _).bind fun _ => (placeless_block _).bind fun _ =>
    (placeless_keyword _).bind fun _ => hclosing.bind fun _ _ _ =>
    placeless_endOfInput.bind fun _ => (placeless_emit _).bind fun _ =>
    (placeless_checked _).bind fun _ => (placeless_checked _).bind fun _ =>
    (placeless_checked _).bind fun _ => placeless_pure _

end Rule

/-! ### Failures that are syntax errors -/

namespace Rule

/-- The rule is never refused a check: a failure has a cause. -/
def Explained (r : Rule α) : Prop :=
  ∀ ts e, (r.read ts).outcome = .error e → ∃ cause, e.reason = .ok cause

/-- A rule that follows sentences is never refused a check. -/
theorem Follows.explained {V : Type} {C : Proviso} {G : Sentences V} {H : α → Sentences V}
    {r : Rule α} (hr : r.Follows C G H) (hG : G.Possible) : r.Explained := by
  intro ts e h
  have hfollows := hr ts hG
  generalize r.read ts = answer at hfollows h
  cases hfollows with
  | took => cases h
  | @stopped _ _ _ t cause =>
    cases h
    exact ⟨cause, rfl⟩
  | @ended expected =>
    cases h
    exact ⟨.exhausted expected, rfl⟩

theorem explained_statement (budget : Nat) : (statement budget).Explained := by
  have hdone : ∀ s : Statement, s.Readable budget → (Sentences.done ()).Possible := fun _ _ =>
    Sentences.possible_done ()
  exact (follows_statement (C := .fresh .empty) budget _ hdone).explained
    (Sentences.possible_statement hdone)

theorem explained_block (budget : Nat) : (block budget).Explained :=
  (follows_block_endMark (C := .fresh .empty) budget).explained (possible_blockSentences budget)

/-- Changing the value of a rule does not change its failures. -/
theorem Explained.map {r : Rule α} (hr : r.Explained) (f : α → β) : (f <$> r).Explained := by
  intro ts e h
  change ((r >>= fun a => pure (f a)).read ts).outcome = .error e at h
  rw [read_bind] at h
  have hfirst := hr ts e
  generalize r.read ts = first at h hfirst
  obtain ⟨d | a, rest, events⟩ := first
  · cases h
    exact hfirst rfl
  · cases h

theorem explained_program : program.Explained :=
  follows_program.explained possible_programSentences

end Rule

/-! ### Outcomes that agree -/

/-- Two outcomes are the same value, or two syntax errors with the same message, wherever
    these are told. -/
inductive Agree : Except Error α → Except Error α → Prop
  | value (a : α) : Agree (.ok a) (.ok a)
  | malformed {d e : SyntaxError} (message : d.cause.message = e.cause.message) :
      Agree (.error (.malformed d)) (.error (.malformed e))

/-- Two readings agree, and leave the same number of tokens. -/
structure Reading.Agree (x y : Reading Error α) : Prop where
  outcome : BlockLanguage.Agree x.outcome y.outcome
  left : x.rest.length = y.rest.length

/-- A failure with a cause is a syntax error with this cause. -/
theorem located_of_reason {e : Failure} {cause : Cause} (h : e.reason = .ok cause) (ts : Tokens) :
    ∃ p, Rule.located ts e = .malformed ⟨p, cause⟩ := by
  cases e with
  | onToken p c =>
    obtain rfl := Except.ok.inj h
    exact ⟨p, rfl⟩
  | pastLast expected =>
    obtain rfl := Except.ok.inj h
    exact ⟨_, rfl⟩
  | refused v => cases h

/-- From the outside a rule that is never refused a check fails with a syntax error, which
    has the cause of its failure. -/
theorem Rule.Explained.exists_malformed {r : Rule α} (hr : r.Explained) {e : Error}
    (h : (r.run ts).outcome = .error e) :
    ∃ (f : Failure) (s : SyntaxError), (r.read ts).outcome = .error f ∧ e = .malformed s ∧
      f.reason = .ok s.cause ∧ Rule.located ts f = .malformed s := by
  change (r.read ts).outcome.mapError (Rule.located ts) = .error e at h
  cases hread : (r.read ts).outcome with
  | ok a =>
    rw [hread] at h
    cases h
  | error f =>
    rw [hread] at h
    obtain ⟨cause, hreason⟩ := hr ts f hread
    obtain ⟨p, hp⟩ := located_of_reason hreason ts
    exact ⟨f, ⟨p, cause⟩, rfl, (Except.error.inj h).symm.trans hp, hreason, hp⟩

/-- From the outside a rule that does not see places gives readings that agree. -/
theorem Rule.Placeless.agree {r : Rule α} (hr : r.Placeless) (hexplained : r.Explained)
    (hts : texts ts = texts ts') : (r.run ts).Agree (r.run ts') := by
  have halike := hr ts ts' hts
  have hcause := hexplained ts
  have hcause' := hexplained ts'
  simp only [Rule.run]
  generalize r.read ts = x at halike hcause ⊢
  generalize r.read ts' = y at halike hcause' ⊢
  cases halike with
  | took value left =>
    subst value
    exact ⟨.value _, length_eq_of_texts_eq left⟩
  | failed reason left =>
    obtain ⟨cause, h⟩ := hcause _ rfl
    obtain ⟨p, hp⟩ := located_of_reason h ts
    obtain ⟨q, hq⟩ := located_of_reason (reason.symm.trans h) ts'
    refine ⟨?_, length_eq_of_texts_eq left⟩
    show BlockLanguage.Agree (.error (Rule.located ts _)) (.error (Rule.located ts' _))
    rw [hp, hq]
    exact .malformed rfl

/-- **Places do not matter.**  Tokens with the same texts are read alike, as a program, a
    statement or a block: with the same value, or syntax errors with the same message, and
    with as many tokens left.  So sources whose tokens have the same texts hold the same
    program, or the same statements, or are refused with the same message. -/
theorem readings_agree_on_texts :
    (∀ ts ts' : Tokens, texts ts = texts ts' →
      (parseProgram ts).Agree (parseProgram ts') ∧
      (parseStatement ts).Agree (parseStatement ts') ∧
      (parseBlock ts).Agree (parseBlock ts')) ∧
    ∀ source source' : String, texts (tokenize source) = texts (tokenize source') →
      Agree (parse source) (parse source') ∧
      Agree (parseStatements source) (parseStatements source') := by
  have hprogram : ∀ ts ts' : Tokens, texts ts = texts ts' →
      (parseProgram ts).Agree (parseProgram ts') := fun _ _ hts =>
    Rule.placeless_program.agree Rule.explained_program hts
  refine ⟨fun ts ts' hts => ⟨hprogram ts ts' hts, ?_, ?_⟩, fun source source' hts => ⟨?_, ?_⟩⟩
  · exact (Rule.placeless_statement _).agree (Rule.explained_statement _) hts
  · have hblock : (Statement.block <$> Rule.block nestingLimit).Placeless :=
      (Rule.placeless_block _).bind fun _ => Rule.placeless_pure _
    exact hblock.agree ((Rule.explained_block _).map _) hts
  · exact (hprogram _ _ hts).outcome
  · have htext : Rule.statementText.Placeless := (Rule.placeless_block _).bind fun _ =>
      Rule.placeless_endOfInput.bind fun _ => Rule.placeless_pure _
    have hexplained : Rule.statementText.Explained :=
      (Rule.follows_statementText (C := .fresh .empty)).explained <|
        Sentences.possible_statements (Sentences.possible_word.2 (Sentences.possible_done _))
    exact (htext.agree hexplained hts).outcome

/-- A branch closed by the wrong keyword is refused alike on one line and on three, as a
    statement and as a text of statements. -/
theorem readings_agree_on_broken_lines :
    texts (tokenize "IF random THEN END WHILE") =
      texts (tokenize "IF random\nTHEN\n  END WHILE") ∧
    (parseStatement (tokenize "IF random THEN END WHILE")).Agree
      (parseStatement (tokenize "IF random\nTHEN\n  END WHILE")) ∧
    Agree (parseStatements "IF random THEN END WHILE")
      (parseStatements "IF random\nTHEN\n  END WHILE") := by
  have hts : texts (tokenize "IF random THEN END WHILE") =
      texts (tokenize "IF random\nTHEN\n  END WHILE") := by decide +kernel
  exact ⟨hts, (readings_agree_on_texts.1 _ _ hts).2.1, (readings_agree_on_texts.2 _ _ hts).2⟩

end BlockLanguage
