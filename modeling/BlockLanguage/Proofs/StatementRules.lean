import BlockLanguage.Grammar.Statement
import BlockLanguage.Proofs.Follows

namespace BlockLanguage

/-!
# The rules of statements follow their words

The rule of statements under a budget reads the words of the statements that are
readable under it, and the rule of blocks those of lists of such statements.  The
token to come selects the shape of a statement, and tells whether a block goes on.

* `Closes` — the words behind a block;
* `Rule.follows_loop`, `Rule.follows_branch`, `Rule.follows_call` — the three shapes;
* `Rule.ReadsBlocks` — what a rule of blocks must do to stand inside a statement;
* `Rule.follows_statement`, `Rule.readsBlocks_block` — the rules under a budget.
-/

/-! ### The words behind a block -/

/-- The words that can stand behind a block. -/
def Closes (x : String) : Prop :=
  x = Keyword.end_.text ∨ x = Keyword.else_.text ∨ x = endMark

instance : DecidablePred Closes := fun x =>
  inferInstanceAs (Decidable (x = Keyword.end_.text ∨ x = Keyword.else_.text ∨ x = endMark))

/-- No word that closes a block opens a statement. -/
theorem not_closes_of_opens {x : String} (h : Statement.Opens x) : ¬ Closes x := by
  intro hx
  have hname : isIdentifier x = false := by
    rcases hx with rfl | rfl | rfl
    · exact isIdentifier_keyword .end_
    · exact isIdentifier_keyword .else_
    · exact isIdentifier_endMark
  rcases h with rfl | rfl | h
  · rcases hx with h | h | h <;> revert h <;> decide
  · rcases hx with h | h | h <;> revert h <;> decide
  · rw [hname] at h
    cases h

/-- A block ends before a word that closes it, and where no token is left. -/
theorem atBlockEnd_iff {ts : Tokens} :
    Rule.atBlockEnd ts = true ↔ ∀ x ∈ (texts ts).head?, Closes x := by
  cases ts with
  | nil => simp [Rule.atBlockEnd]
  | cons t ts => simp [Rule.atBlockEnd, Closes, Token.isEnd, or_assoc]

/-- Each sentence begins with a word that closes a block, or is empty. -/
def Sentences.EndsBlock {V : Type} (G : Sentences V) : Prop :=
  ∀ w v, G w v → ∀ x ∈ w.head?, Closes x

variable {V : Type} {C : Proviso} {G : Sentences V} {budget : Nat}

theorem Sentences.endsBlock_word {x : String} (h : Closes x) :
    (Sentences.word x G).EndsBlock := by
  intro w v h y hy
  obtain ⟨k, rfl, -⟩ := h
  obtain rfl := Option.some.inj hy
  exact h

theorem Sentences.EndsBlock.either {H : Sentences V} (hG : G.EndsBlock) (hH : H.EndsBlock) :
    (Sentences.either G H).EndsBlock := by
  intro w v h
  rcases h with h | h
  · exact hG w v h
  · exact hH w v h

/-- Statements in front of sentences that end a block: what is written begins a
    statement or ends the block. -/
theorem Sentences.nil_of_closes {G : List Statement → Sentences V} {w : List String} {v : V}
    (h : Sentences.statements budget G w v) (hw : ∀ x ∈ w.head?, Closes x) : G [] w v := by
  obtain ⟨ss, k, rfl, hss, hk⟩ := h
  cases ss with
  | nil => exact hk
  | cons s ss =>
    -- A first statement would begin with a word that opens it.
    obtain ⟨x, others, hx, hopens⟩ := Statement.head_words (Statement.allReadable_cons.1 hss).1
    refine absurd (hw x ?_) (not_closes_of_opens hopens)
    simp [Statement.wordsOf, hx]

/-! ### Checks that flat parts pass -/

namespace Statement

theorem partBody_of_flat {ss : List Statement} (h : anyHasBlock ss = false) :
    (Statement.block ss).partBody = .ok ss := by
  simp [partBody, hasNestedBlock, h, children]

theorem makeWhile_of_flat {c : Condition} {body : List Statement} (h : anyHasBlock body = false) :
    makeWhile c (.block body) = .ok (.whileDo c body) := by
  rw [makeWhile, partBody_of_flat h]

theorem makeIf_of_flat {c : Condition} {body : List Statement} (h : anyHasBlock body = false) :
    makeIf c (.block body) = .ok (.ifThen c body) := by
  rw [makeIf, partBody_of_flat h]

theorem makeIfElse_of_flat {c : Condition} {thenBody elseBody : List Statement}
    (hthen : anyHasBlock thenBody = false) (helse : anyHasBlock elseBody = false) :
    makeIfElse c (.block thenBody) (.block elseBody) = .ok (.ifElse c thenBody elseBody) := by
  rw [makeIfElse, partBody_of_flat hthen, partBody_of_flat helse]

end Statement

/-! ### Compound statements and calls -/

namespace Rule

/-- The end of a compound statement is read in front of what follows it. -/
theorem follows_closing (k : Keyword) (hG : G.Possible) :
    (closing k).Follows C (.word Keyword.end_.text (.word k.text G)) fun _ => G :=
  (follows_keyword .end_ (Sentences.possible_word.2 hG)).bind fun _ => follows_keyword k hG

variable {H : Statement → Sentences V} {inner : Rule (List Statement)}

/-- A rule that reads the words of lists of statements readable under `budget`,
    wherever a block may end behind them. -/
def ReadsBlocks (C : Proviso) (V : Type) (budget : Nat) (r : Rule (List Statement)) : Prop :=
  ∀ G : List Statement → Sentences V,
    (∀ ss, Statement.AllReadable budget ss → (G ss).Possible) →
    (∀ ss, (G ss).EndsBlock) →
    r.Follows C (Sentences.statements budget G) fun ss =>
      Sentences.given (Statement.AllReadable budget ss) (G ss)

/-- The loops that are readable under one opening more than `budget`. -/
def loopSentences (budget : Nat) (H : Statement → Sentences V) : Sentences V :=
  .word Keyword.while_.text <| .condition fun c => .word Keyword.do_.text <|
    .statements budget fun body => .word Keyword.end_.text <| .word Keyword.while_.text <|
      H (.whileDo c body)

theorem follows_loop (hinner : inner.ReadsBlocks C V budget)
    (hH : ∀ s : Statement, s.Readable (budget + 1) → (H s).Possible) :
    (loop inner).Follows C (loopSentences budget H) H := by
  have hbody : ∀ c body, Statement.AllReadable budget body →
      (H (.whileDo c body)).Possible := fun c body hb => hH _ (Statement.readable_whileDo.2 hb)
  have hdo : ∀ c, (Sentences.statements budget fun body => .word Keyword.end_.text <|
      .word Keyword.while_.text <| H (.whileDo c body)).Possible := by
    intro c
    apply Sentences.possible_statements
    simpa using hbody c [] Statement.allReadable_nil
  -- One step a word; what may follow each of them is possible as the whole loop is.
  refine (follows_keyword .while_ ?_).bind fun _ => (follows_condition .while_ ?_).bind
    fun c => (follows_keyword .do_ (hdo c)).bind fun _ => (hinner _ ?_ ?_).bind fun body =>
      Follows.given fun hb => (follows_closing .while_ (hbody c body hb)).bind fun _ => ?_
  · exact Sentences.possible_condition fun c => Sentences.possible_word.2 (hdo c)
  · exact fun c => Sentences.possible_word.2 (hdo c)
  · intro body hb
    simpa using hbody c body hb
  · exact fun body => Sentences.endsBlock_word (.inl rfl)
  · exact follows_checked (Statement.makeWhile_of_flat hb.flat)

/-- What follows the first body of a branch under one opening more than `budget`. -/
def branchEndSentences (budget : Nat) (H : Statement → Sentences V) (c : Condition)
    (thenBody : List Statement) : Sentences V :=
  .either
    (.word Keyword.else_.text <| .statements budget fun elseBody => .word Keyword.end_.text <|
      .word Keyword.if_.text <| H (.ifElse c thenBody elseBody))
    (.word Keyword.end_.text <| .word Keyword.if_.text <| H (.ifThen c thenBody))

/-- The branches that are readable under one opening more than `budget`. -/
def branchSentences (budget : Nat) (H : Statement → Sentences V) : Sentences V :=
  .word Keyword.if_.text <| .condition fun c => .word Keyword.then_.text <|
    .statements budget <| branchEndSentences budget H c

theorem startsWith_iff {k : Keyword} {ts : Tokens} :
    startsWith k ts = true ↔ (texts ts).head? = some k.text := by
  cases ts <;> simp [startsWith]

/-- Looking ahead for a reserved word tells the sentences that begin with it from
    the others. -/
theorem follows_lookAhead {α : Type} {k : Keyword} {G₁ G₂ : Sentences V} {H : α → Sentences V}
    {f : Bool → Rule α} (hG₁ : G₁.Possible) (hG₂ : G₂.Possible)
    (hne : ∀ w v, G₂ w v → w.head? ≠ some k.text)
    (htrue : (f true).Follows C (.word k.text G₁) H) (hfalse : (f false).Follows C G₂ H) :
    (lookAhead (startsWith k) >>= f).Follows C (.either (.word k.text G₁) G₂) H := by
  intro ts _
  have hread : (lookAhead (startsWith k) >>= f).read ts = (f (startsWith k ts)).read ts := rfl
  rw [hread]
  cases hk : startsWith k ts with
  | true =>
    refine (htrue ts (Sentences.possible_word.2 hG₁)).widen (fun _ _ h => .inl h) ?_
    intro w v hw h
    rcases h with h | h
    · exact h
    · exact absurd (hw.trans (startsWith_iff.1 hk)) (hne w v h)
  | false =>
    refine (hfalse ts hG₂).widen (fun _ _ h => .inr h) ?_
    intro w v hw h
    rcases h with h | h
    · rw [startsWith_iff.2 (hw.symm.trans (Sentences.head?_of_word h))] at hk
      cases hk
    · exact h

theorem follows_branch (hinner : inner.ReadsBlocks C V budget)
    (hH : ∀ s : Statement, s.Readable (budget + 1) → (H s).Possible) :
    (branch inner).Follows C (branchSentences budget H) H := by
  have hthen : ∀ c body, Statement.AllReadable budget body →
      (Sentences.word Keyword.end_.text <| .word Keyword.if_.text <|
        H (.ifThen c body)).Possible := by
    intro c body hb
    simpa using hH _ (Statement.readable_ifThen.2 hb)
  have helse : ∀ c a b, Statement.AllReadable budget a → Statement.AllReadable budget b →
      (H (.ifElse c a b)).Possible := fun c a b ha hb => hH _ (Statement.readable_ifElse.2 ⟨ha, hb⟩)
  have hend : ∀ c, (Sentences.statements budget <| branchEndSentences budget H c).Possible :=
    fun c => Sentences.possible_statements <|
      Sentences.possible_either_right (hthen c [] Statement.allReadable_nil)
  -- The word behind the first body tells whether there is a second one.
  refine (follows_keyword .if_ ?_).bind fun _ => (follows_condition .if_ ?_).bind fun c =>
    (follows_keyword .then_ (hend c)).bind fun _ => (hinner _ ?_ ?_).bind fun a =>
      Follows.given fun ha => follows_lookAhead ?_ (hthen c a ha) ?_ ?_ ?_
  · exact Sentences.possible_condition fun c => Sentences.possible_word.2 (hend c)
  · exact fun c => Sentences.possible_word.2 (hend c)
  · exact fun a ha => Sentences.possible_either_right (hthen c a ha)
  · exact fun a => (Sentences.endsBlock_word (.inr (.inl rfl))).either
      (Sentences.endsBlock_word (.inl rfl))
  · apply Sentences.possible_statements
    simpa using helse c a [] ha Statement.allReadable_nil
  · intro w v h
    rw [Sentences.head?_of_word h]
    decide
  · -- The alternative is there.
    refine (follows_keyword .else_ ?_).bind fun _ => (hinner _ ?_ ?_).bind fun b =>
      Follows.given fun hb => (follows_closing .if_ (helse c a b ha hb)).bind fun _ => ?_
    · apply Sentences.possible_statements
      simpa using helse c a [] ha Statement.allReadable_nil
    · intro b hb
      simpa using helse c a b ha hb
    · exact fun b => Sentences.endsBlock_word (.inl rfl)
    · exact follows_checked (Statement.makeIfElse_of_flat ha.flat hb.flat)
  · -- It is not.
    refine (follows_closing .if_ (Sentences.possible_word.1
      (Sentences.possible_word.1 (hthen c a ha)))).bind fun _ => ?_
    exact follows_checked (Statement.makeIf_of_flat ha.flat)

theorem follows_call (hH : ∀ s : Statement, s.Readable budget → (H s).Possible) :
    call.Follows C (Sentences.name fun n => H (.call n)) H := by
  refine (follows_identifier .instructionCall fun n hn => hH _ (Statement.readable_call.2 hn)).bind
    fun t => Follows.given fun _ => follows_pure _

/-! ### Statements and blocks under a budget -/

theorem startsWithName_iff {ts : Tokens} :
    startsWithName ts = true ↔ ∃ n, (texts ts).head? = some n ∧ isIdentifier n = true := by
  cases ts <;> simp [startsWithName]

/-- The sentences that begin with a readable loop, under one opening more than
    `budget`. -/
theorem loopSentences_iff {w : List String} {v : V} :
    loopSentences budget H w v ↔
      Sentences.statement (budget + 1) H w v ∧ w.head? = some Keyword.while_.text := by
  constructor
  · intro h
    obtain ⟨_, rfl, c, _, rfl, _, rfl, body, _, rfl, hb, _, rfl, k, rfl, h⟩ := h
    exact ⟨⟨.whileDo c body, k, by simp [Statement.words], Statement.readable_whileDo.2 hb, h⟩, rfl⟩
  · intro h
    obtain ⟨⟨s, k, rfl, hs, h⟩, hw⟩ := h
    cases s with
    | block children => exact absurd hs (Statement.not_readable_block children)
    | ifThen c body =>
      exact absurd (show Keyword.if_.text = Keyword.while_.text from Option.some.inj hw) (by decide)
    | ifElse c a b =>
      exact absurd (show Keyword.if_.text = Keyword.while_.text from Option.some.inj hw) (by decide)
    | whileDo c body =>
      exact ⟨_, by simp [Statement.words], c, _, rfl, _, rfl, body, _, rfl,
        Statement.readable_whileDo.1 hs, _, rfl, k, rfl, h⟩
    | call n =>
      obtain rfl : n = Keyword.while_.text := Option.some.inj hw
      exact absurd (Statement.readable_call.1 hs) (by simp)

/-- The sentences that begin with a readable branch, under one opening more than
    `budget`. -/
theorem branchSentences_iff {w : List String} {v : V} :
    branchSentences budget H w v ↔
      Sentences.statement (budget + 1) H w v ∧ w.head? = some Keyword.if_.text := by
  constructor
  · intro h
    obtain ⟨_, rfl, c, _, rfl, _, rfl, a, _, rfl, ha, h⟩ := h
    rcases h with ⟨_, rfl, b, _, rfl, hb, _, rfl, k, rfl, h⟩ | ⟨_, rfl, k, rfl, h⟩
    · exact ⟨⟨.ifElse c a b, k, by simp [Statement.words],
        Statement.readable_ifElse.2 ⟨ha, hb⟩, h⟩, rfl⟩
    · exact ⟨⟨.ifThen c a, k, by simp [Statement.words], Statement.readable_ifThen.2 ha, h⟩, rfl⟩
  · intro h
    obtain ⟨⟨s, k, rfl, hs, h⟩, hw⟩ := h
    cases s with
    | block children => exact absurd hs (Statement.not_readable_block children)
    | ifThen c a =>
      exact ⟨_, by simp [Statement.words], c, _, rfl, _, rfl, a, _, rfl,
        Statement.readable_ifThen.1 hs, .inr ⟨_, rfl, k, rfl, h⟩⟩
    | ifElse c a b =>
      obtain ⟨ha, hb⟩ := Statement.readable_ifElse.1 hs
      exact ⟨_, by simp [Statement.words], c, _, rfl, _, rfl, a, _, rfl, ha,
        .inl ⟨_, rfl, b, _, rfl, hb, _, rfl, k, rfl, h⟩⟩
    | whileDo c body =>
      exact absurd (show Keyword.while_.text = Keyword.if_.text from Option.some.inj hw) (by decide)
    | call n =>
      obtain rfl : n = Keyword.if_.text := Option.some.inj hw
      exact absurd (Statement.readable_call.1 hs) (by simp)

/-- The rule for what stands inside a statement under `budget`: none without a
    budget, else one that reads blocks under a budget smaller by one. -/
def ReadsInside (C : Proviso) (V : Type) : Nat → Option (Rule (List Statement)) → Prop
  | 0, inner => inner = none
  | budget + 1, inner => ∃ r, inner = some r ∧ r.ReadsBlocks C V budget

/-- A compound statement is read if it may be opened, and refused at its first
    word otherwise. -/
theorem follows_opened {k : Keyword} {compound : Rule (List Statement) → Rule Statement}
    {inner : Option (Rule (List Statement))} {L : Nat → Sentences V} {ts : Tokens}
    (hinner : ReadsInside C V budget inner) (hts : (texts ts).head? = some k.text)
    (hG : (Sentences.statement budget H).Possible)
    (hpossible : ∀ b, budget = b + 1 → (L b).Possible)
    (hiff : ∀ b w v, L b w v ↔ Sentences.statement (b + 1) H w v ∧ w.head? = some k.text)
    (hcompound : ∀ b r, budget = b + 1 → r.ReadsBlocks C V b → (compound r).Follows C (L b) H) :
    BlockLanguage.Follows C (Sentences.statement budget H) H ts
      ((opened inner compound).read ts) := by
  cases budget with
  | zero =>
    -- Without a budget only calls are readable, and no call begins with a reserved word.
    obtain rfl := hinner
    show BlockLanguage.Follows C _ H ts ((failAtFront .statement fun _ => .tooDeep).read ts)
    apply follows_failAtFront Cause.blames_tooDeep hG
    intro w v hw h
    obtain ⟨s, k', rfl, hs, -⟩ := h
    obtain ⟨n, rfl, hn⟩ := Statement.exists_call_of_readable_zero hs
    obtain rfl : n = k.text := Option.some.inj (hw.trans hts)
    rw [isIdentifier_keyword] at hn
    cases hn
  | succ b =>
    obtain ⟨r, rfl, hr⟩ := hinner
    refine (hcompound b r rfl hr ts (hpossible b rfl)).widen (fun w v h => ((hiff b w v).1 h).1) ?_
    exact fun w v hw h => (hiff b w v).2 ⟨h, hw.trans hts⟩

/-- **The rule selected by the token to come** reads the words of readable
    statements. -/
theorem follows_selected {inner : Option (Rule (List Statement))}
    (hinner : ReadsInside C V budget inner)
    (hH : ∀ s : Statement, s.Readable budget → (H s).Possible) :
    (selected inner).Follows C (Sentences.statement budget H) H := by
  intro ts hG
  simp only [selected]
  split
  · next hwhile =>
    refine follows_opened hinner (startsWith_iff.1 hwhile) hG ?_ (fun _ _ _ => loopSentences_iff) ?_
    · rintro b rfl
      have hloop : (Statement.whileDo .random []).Readable (b + 1) :=
        Statement.readable_whileDo.2 Statement.allReadable_nil
      obtain ⟨w, v, h⟩ := hH _ hloop
      exact ⟨_, v, loopSentences_iff.2 ⟨⟨_, w, rfl, hloop, h⟩, rfl⟩⟩
    · rintro b r rfl hr
      exact follows_loop hr hH
  split
  · next hif =>
    refine follows_opened hinner (startsWith_iff.1 hif) hG ?_ (fun _ _ _ => branchSentences_iff) ?_
    · rintro b rfl
      have hbranch : (Statement.ifThen .random []).Readable (b + 1) :=
        Statement.readable_ifThen.2 Statement.allReadable_nil
      obtain ⟨w, v, h⟩ := hH _ hbranch
      exact ⟨_, v, branchSentences_iff.2 ⟨⟨_, w, rfl, hbranch, h⟩, rfl⟩⟩
    · rintro b r rfl hr
      exact follows_branch hr hH
  next hwhile hif =>
  -- What is left begins neither a loop nor a branch, so it is a call or nothing readable.
  rw [startsWith_iff] at hwhile hif
  split
  · next hname =>
    obtain ⟨n, hn, hident⟩ := startsWithName_iff.1 hname
    have hcall := hH _ (Statement.readable_call.2 hident)
    refine (follows_call hH ts (Sentences.possible_name hident hcall)).widen ?_ ?_
    · intro w v h
      obtain ⟨m, k, rfl, hm, h⟩ := h
      exact ⟨.call m, k, rfl, Statement.readable_call.2 hm, h⟩
    · intro w v hw h
      obtain ⟨s, k, rfl, hs, h⟩ := h
      cases s with
      | block children => exact absurd hs (Statement.not_readable_block children)
      | ifThen c a => exact absurd hw.symm hif
      | ifElse c a b => exact absurd hw.symm hif
      | whileDo c body => exact absurd hw.symm hwhile
      | call m => exact ⟨m, k, rfl, Statement.readable_call.1 hs, h⟩
  · next hname =>
    apply follows_failAtFront (Cause.blames_unexpected _) hG
    intro w v hw h
    obtain ⟨s, k, rfl, hs, h⟩ := h
    obtain ⟨x, others, hx, hopens⟩ := Statement.head_words hs
    rw [hx] at hw
    rcases hopens with rfl | rfl | hopens
    · exact hif hw.symm
    · exact hwhile hw.symm
    · exact hname (startsWithName_iff.2 ⟨x, hw.symm, hopens⟩)

theorem follows_statementOver {inner : Option (Rule (List Statement))}
    (hinner : ReadsInside C V budget inner)
    (hH : ∀ s : Statement, s.Readable budget → (H s).Possible) :
    (statementOver inner).Follows C (Sentences.statement budget H) H :=
  (follows_selected hinner hH).bind fun _ => (follows_emit _).bind fun _ => follows_pure _

/-- Statements that begin with one: it, and the others behind it. -/
theorem statements_of_front {G : List Statement → Sentences V} {w : List String} {v : V}
    (hG : (G []).EndsBlock) (h : Sentences.statements budget G w v) {x : String}
    (hw : w.head? = some x) (hx : ¬ Closes x) :
    Sentences.statement budget (fun s => .given (s.Readable budget) <|
      .statements budget fun ss => G (s :: ss)) w v := by
  obtain ⟨ss, k, rfl, hss, hk⟩ := h
  cases ss with
  | nil => exact absurd (hG _ _ hk x hw) hx
  | cons s ss =>
    have ⟨hs, hss⟩ := Statement.allReadable_cons.1 hss
    exact ⟨s, _, by simp [Statement.wordsOf], hs, hs, ss, k, rfl, hss, hk⟩

/-- Where a block ends, its rule reads no statement. -/
theorem follows_blockOf_end {item : Rule Statement} {progress : item.Progresses}
    {G : List Statement → Sentences V} {ts : Tokens} (hG : (G []).Possible)
    (hts : atBlockEnd ts = true) :
    BlockLanguage.Follows C (Sentences.statements budget G)
      (fun ss => Sentences.given (Statement.AllReadable budget ss) (G ss)) ts
      ((blockOf item progress).read ts) := by
  have hcloses := atBlockEnd_iff.1 hts
  rw [read_blockOf_end hts]
  refine .took (List.nil_append ts).symm
    (Sentences.possible_given Statement.allReadable_nil hG) ?_ ?_
  · intro w v h
    exact ⟨[], w, rfl, Statement.allReadable_nil, h.2⟩
  · intro w v hw h
    refine ⟨Statement.allReadable_nil, Sentences.nil_of_closes h ?_⟩
    rwa [hw]

/-- Where a block does not end, some word stands that does not close it. -/
theorem exists_word_of_not_atBlockEnd {ts : Tokens} (h : atBlockEnd ts = false) :
    ∃ x, (texts ts).head? = some x ∧ ¬ Closes x := by
  have hnot : ¬ ∀ x ∈ (texts ts).head?, Closes x := by
    intro hall
    rw [atBlockEnd_iff.2 hall] at h
    cases h
  simpa using hnot

/-- **A repetition of statements** reads the words of lists of them. -/
theorem readsBlocks_blockOf {item : Rule Statement} {progress : item.Progresses}
    (hitem : ∀ H : Statement → Sentences V, (∀ s, s.Readable budget → (H s).Possible) →
      item.Follows C (Sentences.statement budget H) H) :
    (blockOf item progress).ReadsBlocks C V budget := by
  intro G hpossible hends ts
  -- The number of tokens left bounds the repetition; what follows a list varies with its head.
  induction hn : ts.length using Nat.strongRecOn generalizing G ts with
  | ind n ih =>
    intro hG
    cases hstop : atBlockEnd ts with
    | true => exact follows_blockOf_end (hpossible [] Statement.allReadable_nil) hstop
    | false =>
      obtain ⟨x, hx, hopen⟩ := exists_word_of_not_atBlockEnd hstop
      rw [read_blockOf_step hstop]
      have hrest : ∀ s, s.Readable budget →
          (Sentences.statements budget fun ss => G (s :: ss)).Possible := fun s hs =>
        Sentences.possible_statements (hpossible [s] (by simpa using hs))
      -- That the first statement is readable must be known behind it.
      have hgiven : ∀ s : Statement, s.Readable budget → (Sentences.given (s.Readable budget) <|
          .statements budget fun ss => G (s :: ss)).Possible := fun s hs =>
        Sentences.possible_given hs (hrest s hs)
      have hfront : ∀ w v, w.head? = (texts ts).head? → Sentences.statements budget G w v →
          Sentences.statement budget (fun s => .given (s.Readable budget) <|
            .statements budget fun ss => G (s :: ss)) w v := fun w v hw h =>
        statements_of_front (hends []) h (hw.trans hx) hopen
      have hfirst := hitem _ hgiven ts (Sentences.possible_statement hgiven)
      refine (hfirst.bind_same ?_).widen ?_ hfront
      · intro s hs h
        obtain ⟨_, _, hread, _⟩ := h
        have hlt : (item.read ts).rest.length < n := hn ▸ progress ts s hs
        have htail := ih _ hlt (fun ss => G (s :: ss))
          (fun ss hss => hpossible (s :: ss) (by simp [hread, hss])) (fun ss => hends (s :: ss))
          (item.read ts).rest rfl (hrest s hread)
        refine (htail.bind_same ?_).widen (fun _ _ h => ⟨hread, h⟩) fun _ _ _ h => h.2
        intro ss _ h
        obtain ⟨w, v, hss, h⟩ := h
        have hall : Statement.AllReadable budget (s :: ss) := by simp [hread, hss]
        exact (follows_pure (s :: ss) _ ⟨w, v, hall, h⟩).widen (fun _ _ h => ⟨hss, h.2⟩)
          fun _ _ _ h => ⟨hall, h.2⟩
      · intro w v h
        obtain ⟨s, k, rfl, hs, -, ss, k', rfl, hss, h⟩ := h
        exact ⟨s :: ss, k', by simp [Statement.wordsOf], by simp [hs, hss], h⟩

/-- **Statements under a budget.**  The rule reads the words of the statements
    that are readable under it. -/
theorem follows_statement (budget : Nat) (H : Statement → Sentences V)
    (hH : ∀ s : Statement, s.Readable budget → (H s).Possible) :
    (statement budget).Follows C (Sentences.statement budget H) H := by
  induction budget generalizing H with
  | zero => exact follows_statementOver rfl hH
  | succ budget ih =>
    rw [statement_succ]
    exact follows_statementOver ⟨_, rfl, readsBlocks_blockOf ih⟩ hH

/-- **Blocks under a budget.**  The rule reads the words of the lists of
    statements that are readable under it, up to a word that closes a block. -/
theorem readsBlocks_block (budget : Nat) : (block budget).ReadsBlocks C V budget :=
  readsBlocks_blockOf fun H hH => follows_statement budget H hH

end Rule

end BlockLanguage
