import BlockLanguage.Proofs.Readable

namespace BlockLanguage

/-!
# Statements beneath a statement

* `Statement.parts` — the statements that a statement holds directly;
* `Statement.Holds` — which statements stand beneath another one;
* `Statement.parts_induction` — induction from the parts to the whole;
* `Statement.hasNestedBlock_eq_false_iff` — the search for nested blocks finds
  whatever stands beneath the root.
-/

namespace Statement

/-- The statements that a statement holds directly. -/
def parts : Statement → List Statement
  | .block children => children
  | .ifThen _ body => body
  | .ifElse _ thenBody elseBody => thenBody ++ elseBody
  | .whileDo _ body => body
  | .call _ => []

/-- The statement `t` stands beneath the root of `s`, at any depth. -/
inductive Holds : Statement → Statement → Prop
  | part {s t : Statement} (h : t ∈ s.parts) : Holds s t
  | within {s t u : Statement} (h : t ∈ s.parts) (ht : Holds t u) : Holds s u

/-- **Induction from parts.**  A property of statements follows if each statement
    has it whose parts have it. -/
theorem parts_induction {P : Statement → Prop} (h : ∀ s, (∀ t ∈ s.parts, P t) → P s)
    (s : Statement) : P s := by
  suffices hall : (∀ s, P s) ∧ ∀ ss : List Statement, ∀ t ∈ ss, P t from hall.1 s
  refine induction ?_ ?_ ?_ ?_ ?_ ?_ ?_
  · intro cs ih
    exact h _ ih
  · intro c b ih
    exact h _ ih
  · intro c a b iha ihb
    exact h _ (List.forall_mem_append.2 ⟨iha, ihb⟩)
  · intro c b ih
    exact h _ ih
  · intro n
    exact h _ nofun
  · nofun
  · intro s ss hs hss
    exact List.forall_mem_cons.2 ⟨hs, hss⟩

/-- No block is nested in a statement whose parts are no blocks and nest none. -/
theorem hasNestedBlock_eq_false_iff_parts {s : Statement} :
    s.hasNestedBlock = false ↔ ∀ t ∈ s.parts, t.isBlock = false ∧ t.hasNestedBlock = false := by
  have hlist : ∀ ss : List Statement, anyHasBlock ss = false ↔
      ∀ t ∈ ss, t.isBlock = false ∧ t.hasNestedBlock = false := by
    intro ss
    simp only [anyHasBlock_eq, List.any_eq_false, hasBlock_eq, Bool.not_eq_true,
      Bool.or_eq_false_iff]
  cases s with
  | block children => exact hlist children
  | ifThen c body => exact hlist body
  | ifElse c thenBody elseBody =>
    rw [hasNestedBlock, Bool.or_eq_false_iff, hlist, hlist, parts, List.forall_mem_append]
  | whileDo c body => exact hlist body
  | call name => simp [hasNestedBlock, parts]

/-- **Nested blocks.**  The search for them finds none exactly when no statement
    beneath the root is a block. -/
theorem hasNestedBlock_eq_false_iff {s : Statement} :
    s.hasNestedBlock = false ↔ ∀ t, s.Holds t → t.isBlock = false := by
  constructor
  · intro hflat t ht
    induction ht with
    | part h => exact (hasNestedBlock_eq_false_iff_parts.1 hflat _ h).1
    | within h _ ih => exact ih (hasNestedBlock_eq_false_iff_parts.1 hflat _ h).2
  · intro hno
    induction s using parts_induction with
    | h s ih =>
      refine hasNestedBlock_eq_false_iff_parts.2 fun t ht => ⟨hno t (.part ht), ?_⟩
      exact ih t ht fun u hu => hno u (.within ht hu)

end Statement

end BlockLanguage
