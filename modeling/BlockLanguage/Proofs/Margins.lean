import BlockLanguage.Proofs.Beneath
import BlockLanguage.Proofs.Flatten

namespace BlockLanguage

/-!
# Margins

How far a line is indented depends on the branches and loops around it alone: each branch, loop
and call of a tree has lines of its own, which stand one indent further in for each branch and
loop that it stands in, and no other lines are written.  So a tree cannot be written exactly if
one of them stands too far in, and a greater margin puts the same spaces in front of all lines.

* `Node`, `Statement.nodes` — the branches, loops and calls of a tree, with their depths;
* `Statement.Encloses`, `Statement.exists_mem_nodes_iff` — what stands in a tree, and how deep;
* `Statement.ownWords`, `Node.ownLines` — the lines that a node has itself;
* `Statement.lines_perm_nodes` — the lines of a tree are those of its nodes;
* `Statement.lines_infix_of_mem_nodesFrom` — what is written for a node stands together;
* `Statement.lines_add` — the lines at a greater margin;
* `render_eq_error_iff`, `Statement.print_eq_error_iff` — when lines and trees cannot be written;
* `Statement.margins_of_nodes` — the layout of a statement.
-/

/-! ### Nodes -/

/-- A branch, loop or call of a tree, and in how many branches and loops it stands. -/
@[ext] structure Node where
  depth : Nat
  statement : Statement
  not_block : statement.isBlock = false

namespace Statement

mutual

/-- The branches, loops and calls of a statement that stands in `depth` branches and loops. -/
def nodesFrom (depth : Nat) : Statement → List Node
  | .block children => nodesOfFrom depth children
  | .ifThen c body => ⟨depth, .ifThen c body, rfl⟩ :: nodesOfFrom (depth + 1) body
  | .ifElse c thenBody elseBody =>
    ⟨depth, .ifElse c thenBody elseBody, rfl⟩ ::
      (nodesOfFrom (depth + 1) thenBody ++ nodesOfFrom (depth + 1) elseBody)
  | .whileDo c body => ⟨depth, .whileDo c body, rfl⟩ :: nodesOfFrom (depth + 1) body
  | .call name => [⟨depth, .call name, rfl⟩]

/-- The branches, loops and calls of statements that stand in `depth` branches and loops. -/
def nodesOfFrom (depth : Nat) : List Statement → List Node
  | [] => []
  | s :: ss => nodesFrom depth s ++ nodesOfFrom depth ss

end

/-- The branches, loops and calls of a tree. -/
def nodes (s : Statement) : List Node := s.nodesFrom 0

/-- The words of the lines that a statement has itself, apart from what it holds. -/
def ownWords : Statement → List (List String)
  | .block _ => []
  | .ifThen c _ =>
    [[Keyword.if_.text, c.text, Keyword.then_.text], [Keyword.end_.text, Keyword.if_.text]]
  | .ifElse c _ _ =>
    [[Keyword.if_.text, c.text, Keyword.then_.text], [Keyword.else_.text],
      [Keyword.end_.text, Keyword.if_.text]]
  | .whileDo c _ =>
    [[Keyword.while_.text, c.text, Keyword.do_.text], [Keyword.end_.text, Keyword.while_.text]]
  | .call name => [[name]]

/-- How many levels further in a statement has what it holds. -/
def level : Statement → Nat
  | .block _ => 0
  | _ => 1

/-- The statement `t` is `s` or stands in it, with `d` branches and loops of `s` around it. -/
inductive Encloses : (d : Nat) → (s t : Statement) → Prop
  | root (s : Statement) : Encloses 0 s s
  | part {d : Nat} {s t u : Statement} (h : t ∈ s.parts) (ht : Encloses d t u) :
      Encloses (s.level + d) s u

/-- Only a block has no line of its own. -/
theorem ownWords_ne_nil {s : Statement} (h : s.isBlock = false) : s.ownWords ≠ [] := by
  cases s with
  | block children => cases h
  | _ => exact List.cons_ne_nil _ _

end Statement

namespace Node

/-- How far the lines of a node are indented in a tree that starts `offset` spaces from the
    margin. -/
def margin (indent offset : Nat) (n : Node) : Nat := offset + n.depth * indent

/-- The lines that a node has itself, apart from what it holds. -/
def ownLines (indent offset : Nat) (n : Node) : List Line :=
  n.statement.ownWords.map (Line.mk (n.margin indent offset))

/-- All lines of a node are indented alike, and it has one. -/
theorem exists_mem_ownLines_iff {indent offset : Nat} {n : Node} {P : Nat → Prop} :
    (∃ l ∈ n.ownLines indent offset, P l.indent) ↔ P (n.margin indent offset) := by
  constructor
  · rintro ⟨l, hl, hP⟩
    obtain ⟨ws, -, rfl⟩ := List.mem_map.1 hl
    exact hP
  · intro hP
    obtain ⟨ws, hws⟩ := List.exists_mem_of_ne_nil _ (Statement.ownWords_ne_nil n.not_block)
    exact ⟨_, List.mem_map_of_mem hws, hP⟩

end Node

/-! ### Where nodes stand -/

namespace Statement

/-- The nodes of statements are those of each. -/
theorem mem_nodesOfFrom {depth : Nat} {ss : List Statement} {n : Node} :
    n ∈ nodesOfFrom depth ss ↔ ∃ t ∈ ss, n ∈ t.nodesFrom depth := by
  induction ss with
  | nil => simp [nodesOfFrom]
  | cons s ss ih => simp [nodesOfFrom, ih]

/-- The nodes of a statement are itself, unless it is a block, and those of its parts. -/
theorem mem_nodesFrom {depth : Nat} {s : Statement} {n : Node} :
    n ∈ s.nodesFrom depth ↔
      (n.depth = depth ∧ n.statement = s) ∨ ∃ t ∈ s.parts, n ∈ t.nodesFrom (depth + s.level) := by
  obtain ⟨d, t, ht⟩ := n
  cases s with
  | block children =>
    have hroot : t ≠ block children := by
      rintro rfl
      cases ht
    simp [nodesFrom, parts, level, mem_nodesOfFrom, hroot]
  | ifElse c thenBody elseBody =>
    simp [nodesFrom, parts, level, mem_nodesOfFrom, Node.ext_iff, or_and_right, exists_or]
  | ifThen c body => simp [nodesFrom, parts, level, mem_nodesOfFrom, Node.ext_iff]
  | whileDo c body => simp [nodesFrom, parts, level, mem_nodesOfFrom, Node.ext_iff]
  | call name => simp [nodesFrom, parts, Node.ext_iff]

/-- A node of a statement stands in it, as deep as its depth says. -/
theorem encloses_of_mem_nodesFrom {s : Statement} {depth : Nat} {n : Node}
    (h : n ∈ s.nodesFrom depth) : ∃ d, n.depth = depth + d ∧ s.Encloses d n.statement := by
  induction s using parts_induction generalizing depth with
  | h s ih =>
    rcases mem_nodesFrom.1 h with ⟨hdepth, rfl⟩ | ⟨t, ht, hn⟩
    · exact ⟨0, hdepth, .root _⟩
    · obtain ⟨d, hdepth, hd⟩ := ih t ht hn
      exact ⟨s.level + d, by rw [hdepth, Nat.add_assoc], .part ht hd⟩

/-- What stands in a statement and is no block is a node of it. -/
theorem Encloses.exists_mem_nodesFrom {d : Nat} {s t : Statement} (h : s.Encloses d t)
    (ht : t.isBlock = false) (depth : Nat) :
    ∃ n ∈ s.nodesFrom depth, n.depth = depth + d ∧ n.statement = t := by
  induction h generalizing depth with
  | root s => exact ⟨⟨depth, s, ht⟩, mem_nodesFrom.2 (.inl ⟨rfl, rfl⟩), rfl, rfl⟩
  | @part d s u t hu _ ih =>
    obtain ⟨n, hn, hdepth, hstatement⟩ := ih ht (depth + s.level)
    refine ⟨n, mem_nodesFrom.2 (.inr ⟨u, hu, hn⟩), ?_, hstatement⟩
    rw [hdepth, Nat.add_assoc]

/-- **Nodes.**  They are all that stands in a tree and is no block. -/
theorem exists_mem_nodes_iff {d : Nat} {s t : Statement} :
    (∃ n ∈ s.nodes, n.depth = d ∧ n.statement = t) ↔ s.Encloses d t ∧ t.isBlock = false := by
  constructor
  · rintro ⟨n, hn, rfl, rfl⟩
    obtain ⟨d, hdepth, hd⟩ := encloses_of_mem_nodesFrom hn
    rw [Nat.zero_add] at hdepth
    exact ⟨hdepth ▸ hd, n.not_block⟩
  · rintro ⟨hd, ht⟩
    obtain ⟨n, hn, hdepth, hstatement⟩ := hd.exists_mem_nodesFrom ht 0
    rw [Nat.zero_add] at hdepth
    exact ⟨n, hn, hdepth, hstatement⟩

end Statement

/-! ### The lines of nodes -/

/-- A line that is `k` spaces further in. -/
def Line.shifted (k : Nat) (l : Line) : Line := ⟨l.indent + k, l.words⟩

/-- One level more is one indent more. -/
theorem margin_succ (indent offset depth : Nat) :
    offset + depth * indent + indent = offset + (depth + 1) * indent := by
  rw [Nat.succ_mul, Nat.add_assoc]

namespace Statement

/-- The lines of a statement that stands in `depth` branches and loops are those of its nodes. -/
theorem lines_perm_nodesFrom (indent offset : Nat) :
    (∀ (s : Statement) (depth : Nat), (s.lines indent (offset + depth * indent)).Perm
      ((s.nodesFrom depth).flatMap (Node.ownLines indent offset))) ∧
    ∀ (ss : List Statement) (depth : Nat), (linesOf indent (offset + depth * indent) ss).Perm
      ((nodesOfFrom depth ss).flatMap (Node.ownLines indent offset)) := by
  -- The last line of a branch or a loop makes way for what stands between the two.
  have hbetween : ∀ {first last : Line} {ls own : List Line}, ls.Perm own →
      ([first] ++ ls ++ [last]).Perm ([first, last] ++ own) := by
    intro first last ls own h
    exact (List.perm_append_comm.trans (h.cons last)).cons first
  refine induction ?_ ?_ ?_ ?_ ?_ ?_ ?_
  · intro cs ih depth
    exact ih depth
  · intro c b ih depth
    rw [lines, margin_succ, nodesFrom, List.flatMap_cons]
    exact hbetween (ih (depth + 1))
  · intro c a b iha ihb depth
    have hthen := List.perm_iff_count.1 (iha (depth + 1))
    have helse := List.perm_iff_count.1 (ihb (depth + 1))
    rw [lines, margin_succ, nodesFrom, List.flatMap_cons, List.flatMap_append, List.perm_iff_count]
    intro l
    simp only [List.count_append, hthen l, helse l]
    simp only [Node.ownLines, Node.margin, ownWords, List.map_cons, List.map_nil, List.count_cons,
      List.count_nil]
    omega
  · intro c b ih depth
    rw [lines, margin_succ, nodesFrom, List.flatMap_cons]
    exact hbetween (ih (depth + 1))
  · intro n depth
    exact List.Perm.refl _
  · intro depth
    exact List.Perm.refl _
  · intro s ss ihs ihss depth
    rw [linesOf, nodesOfFrom, List.flatMap_append]
    exact (ihs depth).append (ihss depth)

/-- **Lines of nodes.**  The lines of a tree are the lines that its nodes have themselves, each
    indented by the depth of its node. -/
theorem lines_perm_nodes (indent offset : Nat) (s : Statement) :
    (s.lines indent offset).Perm (s.nodes.flatMap (Node.ownLines indent offset)) := by
  have h := (lines_perm_nodesFrom indent offset).1 s 0
  rwa [Nat.zero_mul, Nat.add_zero] at h

/-- What is written for a node of a statement that stands in `depth` branches and loops stands
    together. -/
theorem lines_infix_of_mem_nodesFrom (indent offset : Nat) :
    (∀ (s : Statement) (depth : Nat), ∀ n ∈ s.nodesFrom depth,
      n.statement.lines indent (n.margin indent offset) <:+:
        s.lines indent (offset + depth * indent)) ∧
    ∀ (ss : List Statement) (depth : Nat), ∀ n ∈ nodesOfFrom depth ss,
      n.statement.lines indent (n.margin indent offset) <:+:
        linesOf indent (offset + depth * indent) ss := by
  -- What stands together in the body of a branch or a loop stands together in the whole.
  have hwithin : ∀ {n : Node} {depth : Nat} {b : List Statement} {ls : List Line},
      n.statement.lines indent (n.margin indent offset) <:+:
        linesOf indent (offset + (depth + 1) * indent) b →
      linesOf indent (offset + depth * indent + indent) b <:+: ls →
      n.statement.lines indent (n.margin indent offset) <:+: ls := by
    intro n depth b ls hn hb
    rw [margin_succ] at hb
    exact hn.trans hb
  refine induction ?_ ?_ ?_ ?_ ?_ ?_ ?_
  · intro cs ih depth
    exact ih depth
  · intro c b ih depth
    rw [nodesFrom, List.forall_mem_cons]
    exact ⟨List.infix_rfl, fun n hn => hwithin (ih (depth + 1) n hn) (List.infix_append _ _ _)⟩
  · intro c a b iha ihb depth
    rw [nodesFrom, List.forall_mem_cons, List.forall_mem_append]
    have hthen : linesOf indent (offset + depth * indent + indent) a <:+:
        (ifElse c a b).lines indent (offset + depth * indent) := by
      rw [lines, List.append_assoc, List.append_assoc]
      exact List.infix_append _ _ _
    exact ⟨List.infix_rfl, fun n hn => hwithin (iha (depth + 1) n hn) hthen,
      fun n hn => hwithin (ihb (depth + 1) n hn) (List.infix_append _ _ _)⟩
  · intro c b ih depth
    rw [nodesFrom, List.forall_mem_cons]
    exact ⟨List.infix_rfl, fun n hn => hwithin (ih (depth + 1) n hn) (List.infix_append _ _ _)⟩
  · intro n depth
    rw [nodesFrom, List.forall_mem_singleton]
    exact List.infix_rfl
  · intro depth n hn
    cases hn
  · intro s ss ihs ihss depth
    rw [nodesOfFrom, List.forall_mem_append, linesOf]
    exact ⟨fun n hn => (ihs depth n hn).trans (List.prefix_append _ _).isInfix,
      fun n hn => (ihss depth n hn).trans (List.suffix_append _ _).isInfix⟩

/-- The lines at a greater margin are the same lines further in. -/
theorem lines_add (indent k : Nat) :
    (∀ (s : Statement) (offset : Nat),
      s.lines indent (offset + k) = (s.lines indent offset).map (Line.shifted k)) ∧
    ∀ (ss : List Statement) (offset : Nat),
      linesOf indent (offset + k) ss = (linesOf indent offset ss).map (Line.shifted k) := by
  have hinner : ∀ offset, offset + k + indent = offset + indent + k := fun offset =>
    Nat.add_right_comm offset k indent
  refine induction ?_ ?_ ?_ ?_ ?_ ?_ ?_
  · intro cs ih offset
    exact ih offset
  · intro c b ih offset
    simp only [lines, hinner, ih, List.map_append, List.map_cons, List.map_nil, Line.shifted]
  · intro c a b iha ihb offset
    simp only [lines, hinner, iha, ihb, List.map_append, List.map_cons, List.map_nil, Line.shifted]
  · intro c b ih offset
    simp only [lines, hinner, ih, List.map_append, List.map_cons, List.map_nil, Line.shifted]
  · intro n offset
    rfl
  · intro offset
    rfl
  · intro s ss ihs ihss offset
    rw [linesOf, linesOf, ihs, ihss, List.map_append]

end Statement

/-! ### Texts of lines -/

/-- Lines cannot be written exactly if one of them is indented too far. -/
theorem render_eq_error_iff {ls : List Line} :
    render ls = .error .indentTooWide ↔ ∃ l ∈ ls, widestIndent < l.indent := by
  unfold render
  by_cases h : ls.all Line.fits = true
  · rw [if_pos h]
    have hnone : ¬ ∃ l ∈ ls, widestIndent < l.indent := by
      rintro ⟨l, hl, hwide⟩
      have hfits : l.indent ≤ widestIndent := of_decide_eq_true (List.all_eq_true.1 h l hl)
      omega
    simp [hnone]
  · rw [if_neg h]
    simpa [Line.fits] using h

/-- What is put in front of a line further in are spaces. -/
theorem Line.text_shifted (k : Nat) (l : Line) : (l.shifted k).text = spaces k ++ l.text := by
  have hspaces : spaces (l.indent + k) = spaces k ++ spaces l.indent := by
    apply String.toList_injective
    rw [String.toList_append, toList_spaces, toList_spaces, toList_spaces,
      List.replicate_append_replicate, Nat.add_comm]
  unfold text shifted
  rw [hspaces]
  simp only [String.append_assoc]

/-- The text of lines further in. -/
theorem joinLines_shifted (k : Nat) (ls : List Line) :
    joinLines (ls.map (Line.shifted k)) = String.join (ls.map fun l => spaces k ++ l.text) := by
  rw [joinLines, List.map_map]
  exact congrArg String.join (List.map_congr_left fun l _ => Line.text_shifted k l)

/-! ### The layout of a statement -/

namespace Statement

/-- A statement cannot be written exactly if one of its nodes stands too far in. -/
theorem print_eq_error_iff {s : Statement} {indent offset : Nat} :
    s.print indent offset = .error .indentTooWide ↔
      ∃ n ∈ s.nodes, widestIndent < n.margin indent offset := by
  have hlines : ∀ l, l ∈ s.lines indent offset ↔ ∃ n ∈ s.nodes, l ∈ n.ownLines indent offset :=
    fun l => (s.lines_perm_nodes indent offset).mem_iff.trans List.mem_flatMap
  rw [print, render_eq_error_iff]
  constructor
  · rintro ⟨l, hl, hwide⟩
    obtain ⟨n, hn, hln⟩ := (hlines l).1 hl
    exact ⟨n, hn, Node.exists_mem_ownLines_iff.1 ⟨l, hln, hwide⟩⟩
  · rintro ⟨n, hn, hwide⟩
    obtain ⟨l, hln, hl⟩ := Node.exists_mem_ownLines_iff (P := (widestIndent < ·)).2 hwide
    exact ⟨l, (hlines l).2 ⟨n, hn, hln⟩, hl⟩

/-- A statement is written as its lines unless it cannot be written. -/
theorem print_eq_ok_of_ne {s : Statement} {indent offset : Nat}
    (h : s.print indent offset ≠ .error .indentTooWide) :
    s.print indent offset = .ok (joinLines (s.lines indent offset)) := by
  refine render_eq_ok fun l hl => Nat.le_of_not_lt fun hwide => ?_
  exact h (render_eq_error_iff.2 ⟨l, hl, hwide⟩)

/-- **Margins.**  The lines of a statement are those that its branches, loops and calls have
    themselves: each at the margin that its depth gives, and what is written for it together.
    The statement cannot be written exactly if a branch, loop or call stands too far in, and is
    written as its lines if none does.  What is written at a margin `k` spaces further in is what
    is written at the margin, with `k` spaces in front of each line. -/
theorem margins_of_nodes (s : Statement) (indent offset : Nat) :
    (∀ d t, (∃ n ∈ s.nodes, n.depth = d ∧ n.statement = t) ↔
      s.Encloses d t ∧ t.isBlock = false) ∧
    (s.lines indent offset).Perm (s.nodes.flatMap (Node.ownLines indent offset)) ∧
    (∀ n ∈ s.nodes, n.statement.lines indent (n.margin indent offset) <:+:
      s.lines indent offset) ∧
    (s.print indent offset = .error .indentTooWide ↔
      ∃ d t, s.Encloses d t ∧ t.isBlock = false ∧ widestIndent < offset + d * indent) ∧
    ((∀ d t, s.Encloses d t → t.isBlock = false → offset + d * indent ≤ widestIndent) →
      s.print indent offset = .ok (joinLines (s.lines indent offset))) ∧
    ∀ k text, s.print indent (offset + k) = .ok text →
      s.print indent offset = .ok (joinLines (s.lines indent offset)) ∧
      text = String.join ((s.lines indent offset).map fun l => spaces k ++ l.text) := by
  have hwide : s.print indent offset = .error .indentTooWide ↔
      ∃ d t, s.Encloses d t ∧ t.isBlock = false ∧ widestIndent < offset + d * indent := by
    rw [print_eq_error_iff]
    constructor
    · rintro ⟨n, hn, hwide⟩
      obtain ⟨hd, ht⟩ := exists_mem_nodes_iff.1 ⟨n, hn, rfl, rfl⟩
      exact ⟨_, _, hd, ht, hwide⟩
    · rintro ⟨d, t, hd, ht, hwide⟩
      obtain ⟨n, hn, rfl, rfl⟩ := exists_mem_nodes_iff.2 ⟨hd, ht⟩
      exact ⟨n, hn, hwide⟩
  have hinfix := (lines_infix_of_mem_nodesFrom indent offset).1 s 0
  rw [Nat.zero_mul, Nat.add_zero] at hinfix
  refine ⟨fun d t => exists_mem_nodes_iff, s.lines_perm_nodes indent offset, hinfix, hwide, ?_, ?_⟩
  · intro hnarrow
    apply print_eq_ok_of_ne
    rw [Ne, hwide]
    rintro ⟨d, t, hd, ht, hdt⟩
    exact absurd (hnarrow d t hd ht) (Nat.not_le.2 hdt)
  · intro k text htext
    have hlines := (lines_add indent k).1 s offset
    constructor
    · -- A line too far in at the margin would be so `k` spaces further in.
      apply print_eq_ok_of_ne
      intro herror
      obtain ⟨l, hl, hwide⟩ := render_eq_error_iff.1 herror
      have hfurther : s.print indent (offset + k) = .error .indentTooWide := by
        rw [print, hlines, render_eq_error_iff]
        exact ⟨_, List.mem_map_of_mem hl, Nat.lt_add_right k hwide⟩
      rw [hfurther] at htext
      cases htext
    · rw [eq_joinLines_of_render htext, hlines, joinLines_shifted]

/-- A call in a block in a loop stands one level in: it is too far in where the loop itself is
    not, and moves with it. -/
theorem margins_of_call_in_loop :
    ((Statement.whileDo .random [.block [.call "go"]]).Encloses 1 (.call "go") ∧
      widestIndent < 1 + 1 * 65535 ∧
      (Statement.whileDo .random [.block [.call "go"]]).print 65535 1 =
        .error .indentTooWide) ∧
    ((Statement.whileDo .random [.block [.call "go"]]).print 2 (1 + 3) =
        .ok "    WHILE random DO\n      go\n    END WHILE\n" ∧
      (Statement.whileDo .random [.block [.call "go"]]).print 2 1 =
        .ok (joinLines ((Statement.whileDo .random [.block [.call "go"]]).lines 2 1)) ∧
      "    WHILE random DO\n      go\n    END WHILE\n" =
        String.join (((Statement.whileDo .random [.block [.call "go"]]).lines 2 1).map
          fun l => spaces 3 ++ l.text)) := by
  have hcall : (Statement.block [.call "go"]).Encloses ((Statement.block [.call "go"]).level + 0)
      (.call "go") := .part (List.mem_singleton_self _) (.root _)
  have hloop : (Statement.whileDo .random [.block [.call "go"]]).Encloses 1 (.call "go") :=
    @Encloses.part 0 (.whileDo .random [.block [.call "go"]]) _ _ (List.mem_singleton_self _) hcall
  have hwide : widestIndent < 1 + 1 * 65535 := by decide
  have hprint : (Statement.whileDo .random [.block [.call "go"]]).print 2 (1 + 3) =
      .ok "    WHILE random DO\n      go\n    END WHILE\n" := by decide +kernel
  obtain ⟨-, -, -, herror, -, -⟩ :=
    margins_of_nodes (.whileDo .random [.block [.call "go"]]) 65535 1
  obtain ⟨-, -, -, -, -, hfurther⟩ :=
    margins_of_nodes (.whileDo .random [.block [.call "go"]]) 2 1
  exact ⟨⟨hloop, hwide, herror.2 ⟨1, _, hloop, rfl, hwide⟩⟩, hprint, hfurther 3 _ hprint⟩

end Statement

end BlockLanguage
