import BlockLanguage.Proofs.RoundTrip

namespace BlockLanguage

/-!
# What the layout forgets

A statement and its flat form, in which the blocks beneath the root have made way
for their children, are written alike.  Nothing else is forgotten: from what is
written for a statement its flat form can be told, up to a block at the root.

* `Statement.flatten` — the flat form;
* `Statement.lines_flatten` — it has the same lines;
* `Statement.flatten_eq_self_iff` — the statements that are flat;
* `Statement.splice_eq_of_print_eq` — the text tells what is left of a tree;
* `Statement.layout_forgets_nested_blocks` — the layout forgets nested blocks and
  nothing else.
-/

namespace Statement

/-- The statement in which each block beneath the root makes way for its children,
    at any depth. -/
def flatten : Statement → Statement
  | .block children => .block (spliceAll children)
  | .ifThen c body => .ifThen c (spliceAll body)
  | .ifElse c thenBody elseBody => .ifElse c (spliceAll thenBody) (spliceAll elseBody)
  | .whileDo c body => .whileDo c (spliceAll body)
  | .call name => .call name

/-! ### Lines -/

/-- A spliced list has the same lines. -/
theorem linesOf_spliceAll (indent offset : Nat) (ss : List Statement) :
    linesOf indent offset (spliceAll ss) = linesOf indent offset ss := by
  have happend : ∀ ss ts : List Statement, (fun o => linesOf indent o (ss ++ ts)) =
      fun o => linesOf indent o ss ++ linesOf indent o ts := by
    intro ss ts
    induction ss with
    | nil => simp [linesOf]
    | cons s ss ih => simp [linesOf, congrFun ih]
  have h := measure_splice (fun ss o => linesOf indent o ss) (fun f g o => f o ++ g o) happend
    (by simp [linesOf, lines]) (by simp +contextual [linesOf, lines, funext_iff])
    (by simp +contextual [linesOf, lines, funext_iff])
    (by simp +contextual [linesOf, lines, funext_iff]) (.block ss)
  simpa [splice, linesOf, lines] using congrFun h offset

/-- The flat form has the same lines. -/
theorem lines_flatten (indent offset : Nat) (s : Statement) :
    s.flatten.lines indent offset = s.lines indent offset := by
  cases s <;> simp only [flatten, lines, linesOf_spliceAll]

/-! ### Flat statements -/

/-- No block is left in a spliced list. -/
theorem anyHasBlock_spliceAll (ss : List Statement) : anyHasBlock (spliceAll ss) = false :=
  anyHasBlock_splice (.block ss)

/-- No block is nested in the flat form. -/
theorem hasNestedBlock_flatten (s : Statement) : s.flatten.hasNestedBlock = false := by
  cases s <;> simp [flatten, hasNestedBlock, anyHasBlock_spliceAll]

/-- A statement is its own flat form exactly when no block is nested in it. -/
theorem flatten_eq_self_iff {s : Statement} : s.flatten = s ↔ s.hasNestedBlock = false := by
  constructor
  · intro h
    rw [← h]
    exact hasNestedBlock_flatten s
  · intro h
    have hkeep : ∀ ss : List Statement, anyHasBlock ss = false → spliceAll ss = ss :=
      splice_of_flat.2
    cases s with
    | block children => rw [flatten, hkeep _ h]
    | ifThen c body => rw [flatten, hkeep _ h]
    | ifElse c thenBody elseBody =>
      rw [hasNestedBlock, Bool.or_eq_false_iff] at h
      rw [flatten, hkeep _ h.1, hkeep _ h.2]
    | whileDo c body => rw [flatten, hkeep _ h]
    | call name => rfl

/-! ### What the text tells -/

/-- What has been written for lines is their characters. -/
theorem eq_joinLines_of_render {ls : List Line} {text : String} (h : render ls = .ok text) :
    text = joinLines ls := by
  unfold render at h
  split at h
  · exact (Except.ok.inj h).symm
  · cases h

/-- Tokens that spell two trees which call identifiers spell the same one, apart from
    blocks. -/
theorem splice_eq_of_texts {s t : Statement} (hs : ∀ name ∈ s.calls, isIdentifier name = true)
    (ht : ∀ name ∈ t.calls, isIdentifier name = true) {ts : Tokens}
    (hts : texts ts = s.words ++ [endMark]) (hts' : texts ts = t.words ++ [endMark]) :
    s.splice = t.splice := by
  rw [← callsOf_splice] at hs ht
  rw [← wordsOf_splice] at hts hts'
  -- Trees may open deeper than the nesting limit, but some budget is enough for both, and
  -- under it the tokens are read in one way only.
  have hread := Rule.read_block_of_words
    ⟨anyHasBlock_splice s, hs, Nat.le_max_left _ (nestingOf t.splice)⟩ hts
  have hread' := Rule.read_block_of_words
    ⟨anyHasBlock_splice t, ht, Nat.le_max_right (nestingOf s.splice) _⟩ hts'
  exact Except.ok.inj (hread.symm.trans hread')

/-- Trees that call identifiers and are written alike are the same apart from
    blocks. -/
theorem splice_eq_of_print_eq {s t : Statement} (hs : ∀ name ∈ s.calls, isIdentifier name = true)
    (ht : ∀ name ∈ t.calls, isIdentifier name = true) {indent offset indent' offset' : Nat}
    {text : String} (hprint : s.print indent offset = .ok text)
    (hprint' : t.print indent' offset' = .ok text) : s.splice = t.splice := by
  have hwords := texts_tokenize_lines hs indent offset
  have hwords' := texts_tokenize_lines ht indent' offset'
  rw [← eq_joinLines_of_render hprint] at hwords
  rw [← eq_joinLines_of_render hprint'] at hwords'
  exact splice_eq_of_texts hs ht hwords hwords'

/-- The flat form is what is left of the tree, up to a block at the root. -/
theorem splice_eq_flatten (s : Statement) :
    s.isBlock = true ∧ .block s.splice = s.flatten ∨
      s.isBlock = false ∧ s.splice = [s.flatten] := by
  cases s with
  | block children => exact .inl ⟨rfl, rfl⟩
  | ifThen c body => exact .inr ⟨rfl, rfl⟩
  | ifElse c thenBody elseBody => exact .inr ⟨rfl, rfl⟩
  | whileDo c body => exact .inr ⟨rfl, rfl⟩
  | call name => exact .inr ⟨rfl, rfl⟩

/-- Trees of which the same is left have the same flat form, up to a block at the
    root of one. -/
theorem flatten_eq_or_block {s t : Statement} (h : s.splice = t.splice) :
    s.flatten = t.flatten ∨ (s.isBlock = false ∧ t.flatten = .block [s.flatten]) ∨
      (t.isBlock = false ∧ s.flatten = .block [t.flatten]) := by
  rcases splice_eq_flatten s with ⟨-, hs⟩ | ⟨hsroot, hs⟩
  · rcases splice_eq_flatten t with ⟨-, ht⟩ | ⟨htroot, ht⟩
    · exact .inl (by rw [← hs, ← ht, h])
    · exact .inr (.inr ⟨htroot, by rw [← hs, h, ht]⟩)
  · rcases splice_eq_flatten t with ⟨-, ht⟩ | ⟨htroot, ht⟩
    · exact .inr (.inl ⟨hsroot, by rw [← ht, ← h, hs]⟩)
    · rw [hs, ht] at h
      exact .inl (List.singleton_inj.1 h)

/-- **What the layout forgets.**  A statement is written as its flat form is, and is
    its own flat form exactly when no block is nested in it.  Two such statements that
    call identifiers, opening as deep as they like, are written alike only if they are
    equal or one is the block of the other. -/
theorem layout_forgets_nested_blocks :
    (∀ (s : Statement) (indent offset : Nat),
      s.flatten.print indent offset = s.print indent offset) ∧
    (∀ s : Statement, s.hasNestedBlock = false ↔ s.flatten = s) ∧
    ∀ s t : Statement, s.hasNestedBlock = false → t.hasNestedBlock = false →
      (∀ name ∈ s.calls, isIdentifier name = true) →
      (∀ name ∈ t.calls, isIdentifier name = true) →
      ∀ (indent offset indent' offset' : Nat) (text : String),
        s.print indent offset = .ok text → t.print indent' offset' = .ok text →
          s = t ∨ (s.isBlock = false ∧ t = .block [s]) ∨ (t.isBlock = false ∧ s = .block [t]) := by
  refine ⟨?_, fun s => flatten_eq_self_iff.symm, ?_⟩
  · intro s indent offset
    rw [print, print, lines_flatten]
  · intro s t hs ht hscalls htcalls indent offset indent' offset' text hprint hprint'
    have hflat := flatten_eq_or_block (splice_eq_of_print_eq hscalls htcalls hprint hprint')
    rwa [flatten_eq_self_iff.2 hs, flatten_eq_self_iff.2 ht] at hflat

/-- A loop and the block of it are written alike, so one must be the block of the
    other. -/
theorem layout_forgets_block_of_loop :
    ((Statement.whileDo .random [.call "go"]).hasNestedBlock = false ∧
      (Statement.block [.whileDo .random [.call "go"]]).hasNestedBlock = false) ∧
    ((∀ name ∈ (Statement.whileDo .random [.call "go"]).calls, isIdentifier name = true) ∧
      ∀ name ∈ (Statement.block [.whileDo .random [.call "go"]]).calls, isIdentifier name = true) ∧
    ((Statement.whileDo .random [.call "go"]).print 2 1 =
        .ok " WHILE random DO\n   go\n END WHILE\n" ∧
      (Statement.block [.whileDo .random [.call "go"]]).print 2 1 =
        .ok " WHILE random DO\n   go\n END WHILE\n") ∧
    (Statement.whileDo .random [.call "go"] = .block [.whileDo .random [.call "go"]] ∨
      ((Statement.whileDo .random [.call "go"]).isBlock = false ∧
        Statement.block [.whileDo .random [.call "go"]] =
          .block [.whileDo .random [.call "go"]]) ∨
      ((Statement.block [.whileDo .random [.call "go"]]).isBlock = false ∧
        Statement.whileDo .random [.call "go"] =
          .block [.block [.whileDo .random [.call "go"]]])) := by
  have hcalls : ∀ name ∈ (Statement.whileDo .random [.call "go"]).calls,
      isIdentifier name = true := by decide +kernel
  have hcalls' : ∀ name ∈ (Statement.block [.whileDo .random [.call "go"]]).calls,
      isIdentifier name = true := by decide +kernel
  have hprint : (Statement.whileDo .random [.call "go"]).print 2 1 =
      .ok " WHILE random DO\n   go\n END WHILE\n" := by decide +kernel
  have hprint' : (Statement.block [.whileDo .random [.call "go"]]).print 2 1 =
      .ok " WHILE random DO\n   go\n END WHILE\n" := by decide +kernel
  exact ⟨⟨rfl, rfl⟩, ⟨hcalls, hcalls'⟩, ⟨hprint, hprint'⟩,
    layout_forgets_nested_blocks.2.2 _ _ rfl rfl hcalls hcalls' 2 1 2 1 _ hprint hprint'⟩

end Statement

end BlockLanguage
