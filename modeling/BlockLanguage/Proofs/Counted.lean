import BlockLanguage.Proofs.Faults

namespace BlockLanguage

/-!
# Reading with a cursor

The rules of statements pass on to what stands inside how many branches and loops may still be
opened, and a want of tokens is located once a whole reading has failed.  Here the rules of the
grammar are given once more, with one cursor for a whole reading.  It holds the position of the
last token taken, which each token that is taken replaces and at which a want of tokens is
reported on the spot, and a counter: it is put up in front of a branch or loop, unless it is at
its limit, and down behind it.  The values of the counter are recorded, and so are the calls of
the rules of statements and blocks.

* `Cursor`, `Cursor.fresh` — what a reader holds;
* `Halt`, `Call`, `Mark`, `Record` — what stops such a reading, and what it answers;
* `Counted` — the rules with a cursor, which form a monad; `Counted.plain` — a rule that takes
  no token and does not touch the counter;
* `Counted.advance`, `Counted.token` — one token taken;
* `Counted.enter`, `Counted.leave`, `Counted.called` — the counter, and recorded calls;
* `Counted.statement`, `Counted.program` — the rules of the grammar;
* `Entry.counted` — these rules from the outside.
-/

/-- What a reader holds: the tokens left, the position of the last token that it has taken, and
    how many branches and loops it has open. -/
structure Cursor where
  left : Tokens
  last : Position
  opened : Nat
  deriving DecidableEq, Repr

/-- The cursor of a reader that has taken nothing: it has the position of the next token. -/
def Cursor.fresh (ts : Tokens) : Cursor := ⟨ts, ts.frontPosition, 0⟩

/-- The error that a failure is behind a last token at `last`. -/
def Failure.errorAt (last : Position) : Failure → Error
  | onToken position cause => .malformed ⟨position, cause⟩
  | pastLast expected => .malformed ⟨last, .exhausted expected⟩
  | refused v => .violation v

/-- What stops a reading with a cursor: an error, or the counter to be put down from zero.  The
    recursion and the loops are bounded here, so the end of a bound would too. -/
inductive Halt
  | failed (e : Error)
  | underflow
  | bound
  deriving DecidableEq, Repr

/-- The rules whose calls are recorded. -/
inductive Callee
  | statement
  | block
  deriving DecidableEq, Repr

/-- A call of a rule: the counter and the tokens that it is given, and those that it returns
    with if it succeeds. -/
structure Call where
  callee : Callee
  counter : Nat
  given : Tokens
  returned : Option (Nat × Tokens)
  deriving DecidableEq, Repr

/-- What is recorded of a reading: a new value of the counter, or a call that is over. -/
inductive Mark
  | counter (value : Nat)
  | call (c : Call)
  deriving DecidableEq, Repr

/-- The answer of a reading with a cursor. -/
structure Record (α : Type) where
  outcome : Except Halt α
  cursor : Cursor
  events : List Event
  marks : List Mark

/-- A rule with a cursor. -/
structure Counted (α : Type) where
  read : Cursor → Record α

namespace Counted

variable {α β : Type}

/-- Reads by `r`, then by the rule that its value selects, from where `r` left the cursor. -/
def andThen (r : Counted α) (f : α → Counted β) : Counted β := ⟨fun c =>
  match r.read c with
  | ⟨.error e, next, events, marks⟩ => ⟨.error e, next, events, marks⟩
  | ⟨.ok a, next, events, marks⟩ =>
    let answer := (f a).read next
    { answer with events := events ++ answer.events, marks := marks ++ answer.marks }⟩

instance : Monad Counted where
  pure a := ⟨fun c => ⟨.ok a, c, [], []⟩⟩
  bind := andThen

/-! ### Steps -/

/-- A rule that takes no token and does not touch the counter. -/
def plain (r : Rule α) : Counted α := ⟨fun c =>
  let answer := r.read c.left
  ⟨answer.outcome.mapError fun f => .failed (f.errorAt c.last), c, answer.events, []⟩⟩

/-- Stops. -/
def halt (h : Halt) : Counted α := ⟨fun c => ⟨.error h, c, [], []⟩⟩

/-- Takes the next token, whose position becomes that of the last one. -/
def advance (expected : Expected) : Counted Token := ⟨fun c =>
  match c.left with
  | [] => ⟨.error (.failed ((Failure.pastLast expected).errorAt c.last)), c, [], []⟩
  | t :: rest => ⟨.ok t, { c with left := rest, last := t.position }, [], []⟩⟩

/-- Takes the next token and asks `accept` for its value. -/
def token (expected : Expected) (accept : Token → Option α) : Counted α := do
  plain (Rule.valueOf expected accept (← advance expected))

/-- Takes a reserved word. -/
def keyword (k : Keyword) : Counted Unit :=
  token (.keyword k) fun t => if t.text = k.text then some () else none

/-- Takes a name; answers its token. -/
def identifier (role : Role) : Counted Token :=
  token (.name role) fun t => if isIdentifier t.text then some t else none

/-- Takes a word that stands for a condition; answers the condition. -/
def condition (after : Keyword) : Counted Condition := do
  plain (Rule.conditionOf
    (← token (.condition after) fun t => if isCondition t.text then some t else none))

/-- Takes the end mark, behind which no token may stand. -/
def endOfInput : Counted Unit := do
  token .endOfInput fun t => if t.isEnd then some () else none
  plain (Rule.nothing (← plain (Rule.lookAhead Tokens.front?)))

/-- Puts the counter up, unless it is at its limit. -/
def enter : Counted Unit := ⟨fun c =>
  if c.opened ≥ nestingLimit then
    (plain (Rule.failAtFront .statement fun _ => .tooDeep)).read c
  else ⟨.ok (), { c with opened := c.opened + 1 }, [], [.counter (c.opened + 1)]⟩⟩

/-- Puts the counter down. -/
def leave : Counted Unit := ⟨fun c =>
  match c.opened with
  | 0 => ⟨.error .underflow, c, [], []⟩
  | d + 1 => ⟨.ok (), { c with opened := d }, [], [.counter d]⟩⟩

/-- Records the call of a rule once it is over. -/
def called (callee : Callee) (r : Counted α) : Counted α := ⟨fun c =>
  let answer := r.read c
  let returned := match answer.outcome with
    | .ok _ => some (answer.cursor.opened, answer.cursor.left)
    | .error _ => none
  { answer with marks := answer.marks ++ [.call ⟨callee, c.opened, c.left, returned⟩] }⟩

/-! ### Statements and blocks -/

/-- A compound statement, with the counter put up in front of it and down behind it. -/
def nested (compound : Counted Statement) : Counted Statement := do
  enter
  let s ← compound
  leave
  return s

/-- The end of the compound statement that `k` opens. -/
def closing (k : Keyword) : Counted Unit := do
  keyword .end_
  keyword k

/-- A loop whose body is read by `inner`. -/
def loop (inner : Counted (List Statement)) : Counted Statement := do
  keyword .while_
  let c ← condition .while_
  keyword .do_
  let body ← inner
  closing .while_
  plain (Rule.checked (Statement.makeWhile c (.block body)))

/-- What follows the first body of a branch; `hasElse` tells whether there is an alternative. -/
def branchEnd (inner : Counted (List Statement)) (c : Condition) (thenBody : List Statement)
    (hasElse : Bool) : Counted Statement :=
  match hasElse with
  | true => do
    keyword .else_
    let elseBody ← inner
    closing .if_
    plain (Rule.checked (Statement.makeIfElse c (.block thenBody) (.block elseBody)))
  | false => do
    closing .if_
    plain (Rule.checked (Statement.makeIf c (.block thenBody)))

/-- A branch whose bodies are read by `inner`. -/
def branch (inner : Counted (List Statement)) : Counted Statement := do
  keyword .if_
  let c ← condition .if_
  keyword .then_
  let thenBody ← inner
  let hasElse ← plain (Rule.lookAhead (Rule.startsWith .else_))
  branchEnd inner c thenBody hasElse

/-- The call of an instruction. -/
def call : Counted Statement := do
  let t ← identifier .instructionCall
  return .call t.text

/-- The rule that the next token selects. -/
def selected (inner : Counted (List Statement)) : Counted Statement := ⟨fun c =>
  if Rule.startsWith .while_ c.left then (nested (loop inner)).read c
  else if Rule.startsWith .if_ c.left then (nested (branch inner)).read c
  else if Rule.startsWithName c.left then call.read c
  else (plain (Rule.failAtFront .statement (.unexpected .statement))).read c⟩

/-- A statement whose branches and loops hold blocks read by `inner`. -/
def statementOver (inner : Counted (List Statement)) : Counted Statement :=
  called .statement do
    let s ← selected inner
    plain (Rule.emit (.statement s.kind))
    return s

/-- The rule `more`, where a block does not end. -/
def unlessEnd (more : Counted (List Statement)) : Counted (List Statement) := ⟨fun c =>
  if Rule.atBlockEnd c.left then (pure [] : Counted (List Statement)).read c else more.read c⟩

/-- The statements that `item` reads one after the other, in at most `turns` turns. -/
def statements (item : Counted Statement) : (turns : Nat) → Counted (List Statement)
  | 0 => unlessEnd (halt .bound)
  | turns + 1 => unlessEnd do
    let s ← item
    let ss ← statements item turns
    return s :: ss

/-- A block of statements that `item` reads: each takes a token, so their number is bounded. -/
def blockOf (item : Counted Statement) : Counted (List Statement) :=
  called .block ⟨fun c => (statements item c.left.length).read c⟩

/-- A statement, with at most `frames` others inside each other in it. -/
def statement : (frames : Nat) → Counted Statement
  | 0 => statementOver (halt .bound)
  | frames + 1 => statementOver (blockOf (statement frames))

/-- A block of statements. -/
def block : Counted (List Statement) := blockOf (statement nestingLimit)

/-! ### Programs -/

/-- The name at the end of a section; it must be the one at its beginning. -/
def closingName (of : Section) (role : Role) (opening : Token) : Counted Unit := do
  let closing ← identifier role
  plain (Rule.require (closing.text = opening.text) closing.position
    (.nameMismatch of opening.text closing.text))

/-- The definition of an instruction: the token of its name, and its body. -/
def definition : Counted (Token × List Statement) := do
  keyword .instruction
  let name ← identifier .instructionName
  plain (Rule.require (!isPrimitive name.text) name.position (.redefinesPrimitive name.text))
  keyword .is
  let body ← block
  keyword .end_
  closingName .instruction .instructionClosing name
  let count ← plain (Rule.checked (Statement.length (.block body)))
  plain (Rule.emit (.definition name.text count))
  return (name, body)

/-- One more definition behind those of `context`. -/
def defined (context : Context) : Counted Context := do
  let (name, body) ← definition
  plain (Rule.require (!context.contains name.text) name.position (.duplicate name.text))
  return context.insert name.text (.block body)

/-- One more definition behind those of `context`, if one begins here. -/
def define (context : Context) : Counted Context := ⟨fun c =>
  if Rule.startsWith .instruction c.left then (defined context).read c
  else (plain (Rule.failAtFront .definition (.unexpected .definition))).read c⟩

/-- The rule `more`, where no body of a program begins; else the answer is `context`. -/
def unlessBegin (context : Context) (more : Counted Context) : Counted Context := ⟨fun c =>
  if Rule.startsWith .begin c.left then (pure context : Counted Context).read c
  else more.read c⟩

/-- The definitions up to the body of a program, in at most `turns` turns. -/
def definitionsFrom : (turns : Nat) → Context → Counted Context
  | 0, context => unlessBegin context (halt .bound)
  | turns + 1, context => unlessBegin context do
    let context' ← define context
    definitionsFrom turns context'

/-- All definitions up to the body of a program: each takes a token, and one more turn may find
    that none begins. -/
def definitions : Counted Context := ⟨fun c =>
  (definitionsFrom (c.left.length + 1) Context.empty).read c⟩

/-- A whole program and the end mark. -/
def program : Counted Program := do
  keyword .program
  let name ← identifier .programName
  keyword .is
  let context ← definitions
  keyword .begin
  let body ← block
  keyword .end_
  closingName .program .programClosing name
  endOfInput
  plain (Rule.emit (.program name.text context.size))
  let named ← plain (Rule.checked (Program.unnamed.setName name.text))
  let (equipped, _) ← plain (Rule.checked (named.swapContext context))
  let (complete, _) ← plain (Rule.checked (equipped.swapBody (.block body)))
  return complete

/-! ### Answers of the steps -/

@[simp] theorem read_pure (a : α) (c : Cursor) :
    (pure a : Counted α).read c = ⟨.ok a, c, [], []⟩ := rfl

/-- One rule behind another, from a given cursor. -/
theorem read_bind (r : Counted α) (f : α → Counted β) (c : Cursor) :
    (r >>= f).read c =
      match r.read c with
      | ⟨.error e, next, events, marks⟩ => ⟨.error e, next, events, marks⟩
      | ⟨.ok a, next, events, marks⟩ =>
        ⟨((f a).read next).outcome, ((f a).read next).cursor,
          events ++ ((f a).read next).events, marks ++ ((f a).read next).marks⟩ := rfl

end Counted

/-! ### From the outside -/

/-- The answer without what only the reader knows, unless the counter or a bound has stopped the
    reading. -/
def Record.reading? {α : Type} (x : Record α) : Option (Reading Error α) :=
  match x.outcome with
  | .ok a => some ⟨.ok a, x.cursor.left, x.events⟩
  | .error (.failed e) => some ⟨.error e, x.cursor.left, x.events⟩
  | .error _ => none

/-- The reading of the tokens `ts` with a fresh cursor. -/
def Entry.counted (e : Entry) (ts : Tokens) : Record e.Value :=
  match e with
  | statement => (Counted.statement nestingLimit).read (.fresh ts)
  | block => (do return Statement.block (← Counted.block) : Counted Statement).read (.fresh ts)
  | program => Counted.program.read (.fresh ts)

end BlockLanguage
