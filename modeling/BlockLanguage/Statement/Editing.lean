import BlockLanguage.Violation

namespace BlockLanguage

/-!
# Checked operations on statements

Blocks are edited in place by position; branches, loops and calls are built
from parts and split into parts.  Every operation checks what it needs, so a
statement built by these alone never holds a block beneath its root.

* `Statement.length`, `Statement.insert`, `Statement.remove` — blocks as lists;
* `Statement.makeIf`, `makeIfElse`, `makeWhile`, `makeCall` — from parts;
* `Statement.splitIf`, `splitIfElse`, `splitWhile`, `splitCall` — into parts.
-/

namespace Statement

/-! ### Blocks as lists -/

/-- The statements of a block. -/
def children : Statement → Except Violation (List Statement)
  | .block cs => .ok cs
  | s => .error (.wrongKind .block s.kind)

/-- The number of statements of a block. -/
def length (s : Statement) : Except Violation Nat :=
  match s.children with
  | .ok cs => .ok cs.length
  | .error v => .error v

/-- The block with `item` put at `position`, before what stood there. -/
def insert (s : Statement) (position : Nat) (item : Statement) : Except Violation Statement :=
  if item.isBlock then .error .itemIsBlock
  else if item.hasNestedBlock then .error .itemHoldsBlock
  else match s.children with
    | .error v => .error v
    | .ok cs =>
      if position ≤ cs.length then .ok (.block (cs.insertIdx position item))
      else .error (.insertPosition position cs.length)

/-- The statement at `position` of a block, and the block without it. -/
def remove (s : Statement) (position : Nat) : Except Violation (Statement × Statement) :=
  match s.children with
  | .error v => .error v
  | .ok cs =>
    match cs[position]? with
    | some item => .ok (item, .block (cs.eraseIdx position))
    | none => .error (.removePosition position cs.length)

/-! ### Building from parts -/

/-- The statements of a block that is to become a branch or a loop. -/
def partBody (s : Statement) : Except Violation (List Statement) :=
  if s.hasNestedBlock then .error .partHoldsBlock else s.children

/-- A branch without alternative. -/
def makeIf (condition : Condition) (block : Statement) : Except Violation Statement :=
  match block.partBody with
  | .error v => .error v
  | .ok body => .ok (.ifThen condition body)

/-- A branch with an alternative. -/
def makeIfElse (condition : Condition) (thenBlock elseBlock : Statement) :
    Except Violation Statement :=
  match thenBlock.partBody, elseBlock.partBody with
  | .error v, _ => .error v
  | .ok _, .error v => .error v
  | .ok thenBody, .ok elseBody => .ok (.ifElse condition thenBody elseBody)

/-- A loop. -/
def makeWhile (condition : Condition) (block : Statement) : Except Violation Statement :=
  match block.partBody with
  | .error v => .error v
  | .ok body => .ok (.whileDo condition body)

/-- A call of the instruction `name`. -/
def makeCall (name : String) : Except Violation Statement :=
  if isIdentifier name then .ok (.call name) else .error (.noIdentifier name)

/-! ### Splitting into parts -/

/-- The condition and the block of a branch without alternative. -/
def splitIf : Statement → Except Violation (Condition × Statement)
  | .ifThen c body => .ok (c, .block body)
  | s => .error (.wrongKind .ifThen s.kind)

/-- The condition and the two blocks of a branch with an alternative. -/
def splitIfElse : Statement → Except Violation (Condition × Statement × Statement)
  | .ifElse c thenBody elseBody => .ok (c, .block thenBody, .block elseBody)
  | s => .error (.wrongKind .ifElse s.kind)

/-- The condition and the block of a loop. -/
def splitWhile : Statement → Except Violation (Condition × Statement)
  | .whileDo c body => .ok (c, .block body)
  | s => .error (.wrongKind .whileDo s.kind)

/-- The instruction that a call names. -/
def splitCall : Statement → Except Violation String
  | .call name => .ok name
  | s => .error (.wrongKind .call s.kind)

end Statement

end BlockLanguage
