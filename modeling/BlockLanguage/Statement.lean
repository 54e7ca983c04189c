import BlockLanguage.Condition

namespace BlockLanguage

/-!
# Statements

A statement is a tree.  Branches and loops hold lists of statements; a block is
such a list standing alone.  A block inside another statement has no written
form of its own, so the checked operations never build one.

* `Statement` — the trees, and `Kind` — their five shapes;
* `Statement.hasNestedBlock` — whether a block stands anywhere beneath the root;
* `Statement.induction` — induction through the lists of children;
* equality of statements is decidable.
-/

/-- A statement of the language. -/
inductive Statement
  | block (children : List Statement)
  | ifThen (condition : Condition) (body : List Statement)
  | ifElse (condition : Condition) (thenBody elseBody : List Statement)
  | whileDo (condition : Condition) (body : List Statement)
  | call (instruction : String)
  deriving Repr

/-- The shape of a statement. -/
inductive Kind
  | block
  | ifThen
  | ifElse
  | whileDo
  | call
  deriving DecidableEq, Repr

/-- The name of a shape, as messages and outlines write it. -/
def Kind.name : Kind → String
  | .block => "Block"
  | .ifThen => "If"
  | .ifElse => "IfElse"
  | .whileDo => "While"
  | .call => "Call"

namespace Statement

/-- The empty block. -/
def empty : Statement := .block []

/-- The shape of a statement. -/
def kind : Statement → Kind
  | .block _ => .block
  | .ifThen _ _ => .ifThen
  | .ifElse _ _ _ => .ifElse
  | .whileDo _ _ => .whileDo
  | .call _ => .call

/-- Whether a statement is a block. -/
def isBlock : Statement → Bool
  | .block _ => true
  | _ => false

/-! ### Induction -/

/-- **Induction on statements.**  A property of statements follows with one of
    lists of statements: lists by their elements, statements by their lists. -/
theorem induction {P : Statement → Prop} {Q : List Statement → Prop}
    (block : ∀ cs, Q cs → P (.block cs))
    (ifThen : ∀ c b, Q b → P (.ifThen c b))
    (ifElse : ∀ c a b, Q a → Q b → P (.ifElse c a b))
    (whileDo : ∀ c b, Q b → P (.whileDo c b))
    (call : ∀ n, P (.call n))
    (nil : Q [])
    (cons : ∀ s ss, P s → Q ss → Q (s :: ss)) :
    (∀ s, P s) ∧ ∀ ss, Q ss := by
  have h : ∀ s, P s := fun s =>
    @Statement.rec P Q block ifThen ifElse whileDo call nil cons s
  refine ⟨h, fun ss => ?_⟩
  induction ss with
  | nil => exact nil
  | cons s ss ih => exact cons s ss (h s) ih

/-! ### Nested blocks -/

mutual

/-- Whether a block stands at the root of a statement or beneath it. -/
def hasBlock : Statement → Bool
  | .block _ => true
  | .ifThen _ body => anyHasBlock body
  | .ifElse _ thenBody elseBody => anyHasBlock thenBody || anyHasBlock elseBody
  | .whileDo _ body => anyHasBlock body
  | .call _ => false

/-- Whether a block stands at the root of some statement or beneath it. -/
def anyHasBlock : List Statement → Bool
  | [] => false
  | s :: ss => hasBlock s || anyHasBlock ss

end

/-- Whether a block stands anywhere beneath the root. -/
def hasNestedBlock : Statement → Bool
  | .block children => anyHasBlock children
  | .ifThen _ body => anyHasBlock body
  | .ifElse _ thenBody elseBody => anyHasBlock thenBody || anyHasBlock elseBody
  | .whileDo _ body => anyHasBlock body
  | .call _ => false

/-- A list holds a block exactly when one of its statements does. -/
theorem anyHasBlock_eq (ss : List Statement) : anyHasBlock ss = ss.any hasBlock := by
  induction ss with
  | nil => rfl
  | cons s ss ih => simp [anyHasBlock, ih]

/-- A block at the root or beneath it is a block root or a nested block. -/
theorem hasBlock_eq (s : Statement) : s.hasBlock = (s.isBlock || s.hasNestedBlock) := by
  cases s <;> simp [hasBlock, isBlock, hasNestedBlock]

/-! ### Equality -/

mutual

/-- Whether two statements are the same tree. -/
def same : Statement → Statement → Bool
  | .block cs, .block ds => sameAll cs ds
  | .ifThen c body, .ifThen d body' => decide (c = d) && sameAll body body'
  | .ifElse c a b, .ifElse d a' b' => decide (c = d) && (sameAll a a' && sameAll b b')
  | .whileDo c body, .whileDo d body' => decide (c = d) && sameAll body body'
  | .call m, .call n => decide (m = n)
  | _, _ => false

/-- Whether two lists hold the same trees in the same order. -/
def sameAll : List Statement → List Statement → Bool
  | [], [] => true
  | s :: ss, t :: ts => same s t && sameAll ss ts
  | _, _ => false

end

/-- The comparison of trees answers their equality. -/
theorem same_iff (s t : Statement) : s.same t = true ↔ s = t := by
  suffices h : (∀ s t : Statement, s.same t = true ↔ s = t) ∧
      ∀ ss ts : List Statement, sameAll ss ts = true ↔ ss = ts from h.1 s t
  refine induction ?_ ?_ ?_ ?_ ?_ ?_ ?_
  · intro cs ih t; cases t <;> simp [same, ih]
  · intro c b ih t; cases t <;> simp [same, ih]
  · intro c a b iha ihb t; cases t <;> simp [same, iha, ihb]
  · intro c b ih t; cases t <;> simp [same, ih]
  · intro n t; cases t <;> simp [same]
  · intro ts; cases ts <;> simp [sameAll]
  · intro s ss ihs ihss ts; cases ts <;> simp [sameAll, ihs, ihss]

instance : DecidableEq Statement := fun s t => decidable_of_iff _ (same_iff s t)

end Statement

end BlockLanguage
