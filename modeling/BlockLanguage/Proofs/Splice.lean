import BlockLanguage.Proofs.Readable
import BlockLanguage.SyntaxError

namespace BlockLanguage

/-!
# Blocks spliced into their surroundings

A block has no written form of its own: where one stands, its children are
written.  Splicing makes a tree the list of statements that is written for it.

* `Statement.splice`, `Statement.spliceAll` — a tree without its blocks;
* `Statement.wordsOf_splice` and its companions — words, calls and nesting stay;
* `Statement.block_splice_eq` — a block that holds no other one is spliced into
  its own children;
* `Statement.Recoverable` — trees whose names and nesting allow reading them back.
-/

namespace Statement

mutual

/-- The statements that are left of a tree when each block in it, the root
    included, makes way for its children. -/
def splice : Statement → List Statement
  | .block children => spliceAll children
  | .ifThen c body => [.ifThen c (spliceAll body)]
  | .ifElse c thenBody elseBody => [.ifElse c (spliceAll thenBody) (spliceAll elseBody)]
  | .whileDo c body => [.whileDo c (spliceAll body)]
  | .call name => [.call name]

/-- The statements that are left of trees, one behind the other. -/
def spliceAll : List Statement → List Statement
  | [] => []
  | s :: ss => splice s ++ spliceAll ss

end

/-! ### What splicing keeps -/

/-- A measure of lists that is additive and does not see blocks does not change
    when blocks are spliced. -/
theorem measure_splice {α : Type} (f : List Statement → α) (join : α → α → α)
    (append : ∀ ss ts, f (ss ++ ts) = join (f ss) (f ts))
    (block : ∀ cs, f [.block cs] = f cs)
    (ifThen : ∀ c b b', f b = f b' → f [.ifThen c b] = f [.ifThen c b'])
    (ifElse : ∀ c a a' b b', f a = f a' → f b = f b' → f [.ifElse c a b] = f [.ifElse c a' b'])
    (whileDo : ∀ c b b', f b = f b' → f [.whileDo c b] = f [.whileDo c b']) (s : Statement) :
    f s.splice = f [s] := by
  suffices h : (∀ s : Statement, f s.splice = f [s]) ∧ ∀ ss, f (spliceAll ss) = f ss from h.1 s
  refine induction ?_ ?_ ?_ ?_ ?_ ?_ ?_
  · intro cs ih
    rw [splice, ih, block]
  · intro c b ih
    rw [splice]
    exact ifThen c _ _ ih
  · intro c a b iha ihb
    rw [splice]
    exact ifElse c _ _ _ _ iha ihb
  · intro c b ih
    rw [splice]
    exact whileDo c _ _ ih
  · intro n
    rw [splice]
  · rw [spliceAll]
  · intro s ss ihs ihss
    -- The measure of a list is joined from those of its statements.
    have hcons : s :: ss = [s] ++ ss := rfl
    rw [spliceAll, append, ihs, ihss, hcons, append]

/-- A spliced tree has the same words. -/
theorem wordsOf_splice (s : Statement) : wordsOf s.splice = s.words := by
  have h := measure_splice wordsOf (· ++ ·) wordsOf_append (by simp [wordsOf, words])
    (by simp +contextual [wordsOf, words]) (by simp +contextual [wordsOf, words])
    (by simp +contextual [wordsOf, words]) s
  rwa [wordsOf, wordsOf, List.append_nil] at h

/-- A spliced tree has the same calls. -/
theorem callsOf_splice (s : Statement) : callsOf s.splice = s.calls := by
  have h := measure_splice callsOf (· ++ ·) callsOf_append (by simp [callsOf, calls])
    (by simp +contextual [callsOf, calls]) (by simp +contextual [callsOf, calls])
    (by simp +contextual [callsOf, calls]) s
  rwa [callsOf, callsOf, List.append_nil] at h

/-- A spliced tree opens as deep. -/
theorem nestingOf_splice (s : Statement) : nestingOf s.splice = s.nesting := by
  have h := measure_splice nestingOf max nestingOf_append (by simp [nestingOf, nesting])
    (by simp +contextual [nestingOf, nesting]) (by simp +contextual [nestingOf, nesting])
    (by simp +contextual [nestingOf, nesting]) s
  rwa [nestingOf, nestingOf, Nat.max_zero] at h

theorem anyHasBlock_append (ss ts : List Statement) :
    anyHasBlock (ss ++ ts) = (anyHasBlock ss || anyHasBlock ts) := by
  simp only [anyHasBlock_eq, List.any_append]

/-- No block is left in a spliced tree. -/
theorem anyHasBlock_splice (s : Statement) : anyHasBlock s.splice = false := by
  suffices h : (∀ s : Statement, anyHasBlock s.splice = false) ∧
      ∀ ss, anyHasBlock (spliceAll ss) = false from h.1 s
  refine induction ?_ ?_ ?_ ?_ ?_ ?_ ?_
  · intro cs ih
    rwa [splice]
  · intro c b ih
    simp [splice, anyHasBlock, hasBlock, ih]
  · intro c a b iha ihb
    simp [splice, anyHasBlock, hasBlock, iha, ihb]
  · intro c b ih
    simp [splice, anyHasBlock, hasBlock, ih]
  · intro n
    simp [splice, anyHasBlock, hasBlock]
  · rfl
  · intro s ss ihs ihss
    rw [spliceAll, anyHasBlock_append, ihs, ihss, Bool.or_false]

/-! ### Trees without blocks -/

/-- Splicing leaves trees without blocks as they are. -/
theorem splice_of_flat : (∀ s : Statement, s.hasBlock = false → s.splice = [s]) ∧
    ∀ ss, anyHasBlock ss = false → spliceAll ss = ss := by
  refine induction ?_ ?_ ?_ ?_ ?_ ?_ ?_
  · intro cs ih h
    cases h
  · intro c b ih h
    rw [splice, ih h]
  · intro c a b iha ihb h
    rw [hasBlock, Bool.or_eq_false_iff] at h
    rw [splice, iha h.1, ihb h.2]
  · intro c b ih h
    rw [splice, ih h]
  · intro n h
    rw [splice]
  · intro h
    rw [spliceAll]
  · intro s ss ihs ihss h
    rw [anyHasBlock, Bool.or_eq_false_iff] at h
    rw [spliceAll, ihs h.1, ihss h.2]
    rfl

/-- A block that holds no other one is the block of what is left of it. -/
theorem block_splice_eq {s : Statement} (hblock : s.isBlock = true)
    (hflat : s.hasNestedBlock = false) : .block s.splice = s := by
  cases s with
  | block children =>
    rw [hasNestedBlock] at hflat
    rw [splice, splice_of_flat.2 children hflat]
  | _ => cases hblock

/-! ### Recoverable trees -/

/-- All calls name an identifier, and branches and loops do not stand deeper inside
    each other than is read. -/
structure Recoverable (s : Statement) : Prop where
  named : ∀ name ∈ s.calls, isIdentifier name = true
  shallow : s.nesting ≤ nestingLimit

/-- What is left of a recoverable tree is readable, and of no other. -/
theorem allReadable_splice {s : Statement} :
    AllReadable nestingLimit s.splice ↔ s.Recoverable := by
  constructor
  · intro h
    obtain ⟨-, hnamed, hshallow⟩ := h
    rw [callsOf_splice] at hnamed
    rw [nestingOf_splice] at hshallow
    exact ⟨hnamed, hshallow⟩
  · intro h
    obtain ⟨hnamed, hshallow⟩ := h
    rw [← callsOf_splice] at hnamed
    rw [← nestingOf_splice] at hshallow
    exact ⟨anyHasBlock_splice s, hnamed, hshallow⟩

/-- A block of readable statements is recoverable. -/
theorem recoverable_block {body : List Statement} (h : AllReadable nestingLimit body) :
    (Statement.block body).Recoverable := ⟨h.named, h.shallow⟩

end Statement

end BlockLanguage
