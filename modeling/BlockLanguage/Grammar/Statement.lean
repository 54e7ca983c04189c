import BlockLanguage.Grammar.Rule
import BlockLanguage.Statement.Editing

namespace BlockLanguage

/-!
# The rules of statements

```text
statement = WHILE condition DO block END WHILE
          | IF condition THEN block [ELSE block] END IF
          | name
block     = statement*       up to END, ELSE, the end mark or the end of the list
```

The recursion follows the number of branches and loops that may still be
opened inside each other.

* `Rule.loop`, `Rule.branch`, `Rule.call`, `Rule.blockOf` — the rules over given
  rules for what stands inside;
* `Rule.statement`, `Rule.block` — the rules under a given number;
* `parseStatement`, `parseBlock` — the rules from the outside.
-/

namespace Rule

/-- Whether the next token is the reserved word `k`. -/
def startsWith (k : Keyword) (ts : Tokens) : Bool :=
  match ts with
  | [] => false
  | t :: _ => t.text == k.text

/-- Whether the next token is a name. -/
def startsWithName (ts : Tokens) : Bool :=
  match ts with
  | [] => false
  | t :: _ => isIdentifier t.text

/-- Whether a block ends before the next token. -/
def atBlockEnd (ts : Tokens) : Bool :=
  match ts with
  | [] => true
  | t :: _ => t.text == Keyword.end_.text || t.text == Keyword.else_.text || t.isEnd

/-! ### Compound statements and calls -/

/-- The end of the compound statement that `k` opens. -/
def closing (k : Keyword) : Rule Unit := do
  keyword .end_
  keyword k

/-- A loop whose body is read by `inner`. -/
def loop (inner : Rule (List Statement)) : Rule Statement := do
  keyword .while_
  let c ← condition .while_
  keyword .do_
  let body ← inner
  closing .while_
  checked (Statement.makeWhile c (.block body))

/-- What follows the first body of a branch; `hasElse` tells whether there is an
    alternative. -/
def branchEnd (inner : Rule (List Statement)) (c : Condition) (thenBody : List Statement)
    (hasElse : Bool) : Rule Statement :=
  match hasElse with
  | true => do
    keyword .else_
    let elseBody ← inner
    closing .if_
    checked (Statement.makeIfElse c (.block thenBody) (.block elseBody))
  | false => do
    closing .if_
    checked (Statement.makeIf c (.block thenBody))

/-- A branch whose bodies are read by `inner`. -/
def branch (inner : Rule (List Statement)) : Rule Statement := do
  keyword .if_
  let c ← condition .if_
  keyword .then_
  let thenBody ← inner
  let hasElse ← lookAhead (startsWith .else_)
  branchEnd inner c thenBody hasElse

/-- The call of an instruction. -/
def call : Rule Statement := do
  let t ← identifier .instructionCall
  return .call t.text

/-- The rule `compound` over blocks read by `inner`, if one more compound
    statement may be opened. -/
def opened (inner : Option (Rule (List Statement)))
    (compound : Rule (List Statement) → Rule Statement) : Rule Statement :=
  match inner with
  | some block => compound block
  | none => failAtFront .statement fun _ => .tooDeep

/-- The rule that the next token selects. -/
def selected (inner : Option (Rule (List Statement))) : Rule Statement := ⟨fun ts =>
  if startsWith .while_ ts then (opened inner loop).read ts
  else if startsWith .if_ ts then (opened inner branch).read ts
  else if startsWithName ts then call.read ts
  else (failAtFront .statement (.unexpected .statement)).read ts⟩

/-- A statement whose branches and loops hold blocks read by `inner`. -/
def statementOver (inner : Option (Rule (List Statement))) : Rule Statement := do
  let s ← selected inner
  emit (.statement s.kind)
  return s

/-! ### What they leave -/

theorem keeps_closing (k : Keyword) : (closing k).Keeps :=
  (keeps_token _ _).bind fun _ => keeps_token _ _

theorem progresses_loop {inner : Rule (List Statement)} (h : inner.Keeps) :
    (loop inner).Progresses :=
  (progresses_token _ _).bind fun _ => (keeps_condition _).bind fun _ => (keeps_token _ _).bind
    fun _ => h.bind fun _ => (keeps_closing _).bind fun _ => keeps_checked _

theorem keeps_loop {inner : Rule (List Statement)} (h : inner.Keeps) : (loop inner).Keeps :=
  (keeps_token _ _).bind fun _ => (keeps_condition _).bind fun _ => (keeps_token _ _).bind
    fun _ => h.bind fun _ => (keeps_closing _).bind fun _ => keeps_checked _

theorem keeps_branchEnd {inner : Rule (List Statement)} (h : inner.Keeps) (c : Condition)
    (thenBody : List Statement) (hasElse : Bool) : (branchEnd inner c thenBody hasElse).Keeps := by
  cases hasElse
  · exact (keeps_closing _).bind fun _ => keeps_checked _
  · exact (keeps_token _ _).bind fun _ => h.bind fun _ => (keeps_closing _).bind
      fun _ => keeps_checked _

theorem progresses_branch {inner : Rule (List Statement)} (h : inner.Keeps) :
    (branch inner).Progresses :=
  (progresses_token _ _).bind fun _ => (keeps_condition _).bind fun _ => (keeps_token _ _).bind
    fun _ => h.bind fun _ => (keeps_lookAhead _).bind fun _ => keeps_branchEnd h _ _ _

theorem keeps_branch {inner : Rule (List Statement)} (h : inner.Keeps) : (branch inner).Keeps :=
  (keeps_token _ _).bind fun _ => (keeps_condition _).bind fun _ => (keeps_token _ _).bind
    fun _ => h.bind fun _ => (keeps_lookAhead _).bind fun _ => keeps_branchEnd h _ _ _

theorem progresses_call : call.Progresses := (progresses_token _ _).bind fun _ => keeps_pure _

theorem keeps_call : call.Keeps := (keeps_token _ _).bind fun _ => keeps_pure _

theorem progresses_opened {inner : Option (Rule (List Statement))}
    {compound : Rule (List Statement) → Rule Statement}
    (h : ∀ block ∈ inner, (compound block).Progresses) : (opened inner compound).Progresses := by
  cases inner with
  | none => exact progresses_failAtFront .statement fun _ => .tooDeep
  | some block => exact h block rfl

theorem keeps_opened {inner : Option (Rule (List Statement))}
    {compound : Rule (List Statement) → Rule Statement}
    (h : ∀ block ∈ inner, (compound block).Keeps) : (opened inner compound).Keeps := by
  cases inner with
  | none => exact keeps_failAtFront .statement fun _ => .tooDeep
  | some block => exact h block rfl

theorem progresses_selected {inner : Option (Rule (List Statement))}
    (h : ∀ block ∈ inner, block.Keeps) : (selected inner).Progresses := by
  intro ts
  simp only [selected]
  split
  · exact progresses_opened (fun b hb => progresses_loop (h b hb)) ts
  · split
    · exact progresses_opened (fun b hb => progresses_branch (h b hb)) ts
    · split
      · exact progresses_call ts
      · exact progresses_failAtFront _ _ ts

theorem keeps_selected {inner : Option (Rule (List Statement))}
    (h : ∀ block ∈ inner, block.Keeps) : (selected inner).Keeps := by
  intro ts
  simp only [selected]
  split
  · exact keeps_opened (fun b hb => keeps_loop (h b hb)) ts
  · split
    · exact keeps_opened (fun b hb => keeps_branch (h b hb)) ts
    · split
      · exact keeps_call ts
      · exact keeps_failAtFront _ _ ts

theorem progresses_statementOver {inner : Option (Rule (List Statement))}
    (h : ∀ block ∈ inner, block.Keeps) : (statementOver inner).Progresses :=
  (progresses_selected h).bind fun _ => (keeps_emit _).bind fun _ => keeps_pure _

theorem keeps_statementOver {inner : Option (Rule (List Statement))}
    (h : ∀ block ∈ inner, block.Keeps) : (statementOver inner).Keeps :=
  (keeps_selected h).bind fun _ => (keeps_emit _).bind fun _ => keeps_pure _

/-! ### Blocks -/

/-- One more statement in front of those of `read`, which holds the last one
    first. -/
def further (item : Rule Statement) (read : List Statement) : Rule (List Statement) := do
  let s ← item
  return s :: read

theorem progresses_further {item : Rule Statement} (h : item.Progresses)
    (read : List Statement) : (further item read).Progresses :=
  h.bind fun _ => keeps_pure _

/-- The statements that the rule `item` reads one after the other. -/
def blockOf (item : Rule Statement) (progress : item.Progresses) : Rule (List Statement) := do
  let read ← iterate atBlockEnd (further item) (progresses_further progress) []
  return read.reverse

/-- The statements read before do not influence those read now. -/
theorem read_iterate_further {item : Rule Statement} (progress : item.Progresses)
    (read : List Statement) (ts : Tokens) :
    (iterate atBlockEnd (further item) (progresses_further progress) read).read ts =
      (do
        let others ← iterate atBlockEnd (further item) (progresses_further progress) []
        return others ++ read : Rule (List Statement)).read ts := by
  induction hn : ts.length using Nat.strongRecOn generalizing read ts with
  | ind n ih =>
    cases hs : atBlockEnd ts with
    | true => simp [read_bind, read_iterate_stop hs]
    | false =>
      rw [read_iterate_step hs, read_bind, read_bind, read_iterate_step hs, read_bind]
      have hp := progress ts
      simp only [further, read_bind]
      rcases h : item.read ts with ⟨e | s, rest, events⟩
      · simp
      · have hlt : rest.length < n := by
          have hr := hp s (by rw [h])
          rw [h] at hr
          exact hn ▸ hr
        simp only [read_pure]
        rw [ih _ hlt (s :: read) rest rfl, ih _ hlt [s] rest rfl]
        simp only [read_bind]
        rcases (iterate atBlockEnd (further item) (progresses_further progress) []).read rest with
          ⟨_ | _, _, _⟩
        · simp
        · simp

/-- A block is empty where it ends. -/
theorem read_blockOf_end {item : Rule Statement} {progress : item.Progresses} {ts : Tokens}
    (h : atBlockEnd ts = true) : (blockOf item progress).read ts = ⟨.ok [], ts, []⟩ := by
  simp [blockOf, read_bind, read_iterate_stop h]

/-- Elsewhere a block is a statement and the block behind it. -/
theorem read_blockOf_step {item : Rule Statement} {progress : item.Progresses} {ts : Tokens}
    (h : atBlockEnd ts = false) :
    (blockOf item progress).read ts =
      (do
        let s ← item
        let ss ← blockOf item progress
        return s :: ss : Rule (List Statement)).read ts := by
  simp only [blockOf, read_bind, read_iterate_step h, further, read_pure]
  rcases item.read ts with ⟨_ | s, rest, _⟩
  · simp
  · simp only
    rw [read_iterate_further progress [s] rest, read_bind]
    rcases (iterate atBlockEnd (further item) (progresses_further progress) []).read rest with
      ⟨_ | _, _, _⟩
    · simp
    · simp

theorem keeps_blockOf {item : Rule Statement} {progress : item.Progresses} (h : item.Keeps) :
    (blockOf item progress).Keeps :=
  Keeps.bind (keeps_iterate (fun _ => h.bind fun _ => keeps_pure _) _) fun _ => keeps_pure _

/-! ### The rules under a number of openings -/

/-- A rule that reads something when it succeeds, and leaves an end of what it
    was given. -/
abbrev Advancing (α : Type) := { r : Rule α // r.Progresses ∧ r.Keeps }

/-- A statement over blocks of statements that `item` reads. -/
def nest (item : Advancing Statement) : Advancing Statement :=
  ⟨statementOver (some (blockOf item.1 item.2.1)),
    progresses_statementOver fun _ hb => Option.some.inj hb ▸ keeps_blockOf item.2.2,
    keeps_statementOver fun _ hb => Option.some.inj hb ▸ keeps_blockOf item.2.2⟩

/-- A statement that opens at most `budget` branches and loops inside each
    other. -/
def advancingStatement : (budget : Nat) → Advancing Statement
  | 0 => ⟨statementOver none, progresses_statementOver nofun, keeps_statementOver nofun⟩
  | budget + 1 => nest (advancingStatement budget)

/-- A statement that opens at most `budget` branches and loops inside each
    other. -/
def statement (budget : Nat) : Rule Statement := (advancingStatement budget).1

theorem progresses_statement (budget : Nat) : (statement budget).Progresses :=
  (advancingStatement budget).2.1

theorem keeps_statement (budget : Nat) : (statement budget).Keeps := (advancingStatement budget).2.2

/-- A block whose statements open at most `budget` branches and loops inside
    each other. -/
def block (budget : Nat) : Rule (List Statement) :=
  blockOf (statement budget) (progresses_statement budget)

theorem keeps_block (budget : Nat) : (block budget).Keeps := keeps_blockOf (keeps_statement budget)

/-- What a statement opens holds blocks under a budget smaller by one. -/
theorem statement_succ (budget : Nat) :
    statement (budget + 1) = statementOver (some (block budget)) := rfl

end Rule

/-- Reads one statement from the front of the tokens. -/
def parseStatement (ts : Tokens) : Reading Error Statement := (Rule.statement nestingLimit).run ts

/-- Reads a block from the front of the tokens; the token that ends it stays. -/
def parseBlock (ts : Tokens) : Reading Error Statement :=
  Rule.run (Statement.block <$> Rule.block nestingLimit) ts

end BlockLanguage
