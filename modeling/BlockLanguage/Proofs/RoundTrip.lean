import BlockLanguage.Proofs.Acceptance
import BlockLanguage.Proofs.Legible
import BlockLanguage.Proofs.Splice

namespace BlockLanguage

/-!
# What is written can be read back

The text of a tree has the words of the tree as its tokens, so reading it gives the
tree back exactly when the grammar accepts these words.

* `render_eq_ok` — lines that fit are written;
* `Statement.print_parseStatements_iff` — which statements are read back;
* `Program.Reachable` — the programs that reading and the checked exchanges build;
* `Program.draft` — the draft with the words of a program;
* `Program.print_parse_iff` — which programs are read back.
-/

/-- Lines that are not indented too far are written. -/
theorem render_eq_ok {ls : List Line} (h : ∀ l ∈ ls, l.indent ≤ widestIndent) :
    render ls = .ok (joinLines ls) := by
  have hfits : ls.all Line.fits = true := by
    rw [List.all_eq_true]
    exact fun l hl => decide_eq_true (h l hl)
  rw [render, if_pos hfits]

/-! ### Statements -/

namespace Statement

/-- A text written for a tree that calls identifiers has the words of the tree as
    its tokens. -/
theorem texts_tokenize_lines {s : Statement} (h : ∀ name ∈ s.calls, isIdentifier name = true)
    (indent offset : Nat) :
    texts (tokenize (joinLines (s.lines indent offset))) = s.words ++ [endMark] := by
  have hlines := s.words_lines indent offset
  have hwords : AllWords ((s.lines indent offset).flatMap Line.words) := by
    rw [hlines]
    exact allWords_words.1 s h
  rw [texts_tokenize_joinLines hwords, hlines]

/-- **Statements read back.**  Any statement whose lines fit is written, and what
    it is without its blocks is read back from the text exactly when it calls
    identifiers only and does not open too deep. -/
theorem print_parseStatements_iff (s : Statement) (indent offset : Nat)
    (h : ∀ l ∈ s.lines indent offset, l.indent ≤ widestIndent) :
    ∃ text, s.print indent offset = .ok text ∧
      (parseStatements text = .ok (.block s.splice) ↔ s.Recoverable) := by
  refine ⟨_, render_eq_ok h, ?_⟩
  constructor
  · intro hparse
    -- Whatever has been read is readable, so what is left of the tree is.
    obtain ⟨body, hbody, -, heq⟩ := outcome_readStatements.1 hparse
    obtain rfl := Statement.block.inj heq
    exact allReadable_splice.1 hbody
  · intro hs
    refine outcome_readStatements.2 ⟨s.splice, allReadable_splice.2 hs, ?_, rfl⟩
    rw [texts_tokenize_lines hs.named, wordsOf_splice]

/-- A block inside another one is read back as part of it. -/
theorem print_parseStatements_inner_block :
    (∀ l ∈ (Statement.block [.block [.call "move"], .whileDo .random [.block []]]).lines 2 1,
      l.indent ≤ widestIndent) ∧
    ∃ text, (Statement.block [.block [.call "move"], .whileDo .random [.block []]]).print 2 1 =
        .ok text ∧
      (parseStatements text =
          .ok (.block (Statement.block [.block [.call "move"], .whileDo .random [.block []]]).splice) ↔
        (Statement.block [.block [.call "move"], .whileDo .random [.block []]]).Recoverable) := by
  have h : ∀ l ∈ (Statement.block [.block [.call "move"], .whileDo .random [.block []]]).lines 2 1,
      l.indent ≤ widestIndent := by decide +kernel
  exact ⟨h, print_parseStatements_iff _ 2 1 h⟩

end Statement

/-! ### Programs that can be built -/

namespace Program

/-- The programs that can be built: from the program to start from and from those
    that are read, by exchanges of their parts.  An exchange that fails leaves the
    program as it is. -/
inductive Reachable : Program → Prop
  | unnamed : Reachable unnamed
  | parsed {source : String} {p : Program} (h : parse source = .ok p) : Reachable p
  | setName {p q : Program} {name : String} (hp : Reachable p) (h : p.setName name = .ok q) :
      Reachable q
  | swapContext {p q : Program} {c old : Context} (hp : Reachable p)
      (h : p.swapContext c = .ok (q, old)) : Reachable q
  | swapBody {p q : Program} {body old : Statement} (hp : Reachable p)
      (h : p.swapBody body = .ok (q, old)) : Reachable q

/-- Every program that can be built is well-formed. -/
theorem Reachable.wellFormed {p : Program} (h : p.Reachable) : p.WellFormed := by
  induction h with
  | unnamed => exact wellFormed_unnamed
  | parsed h =>
    obtain ⟨d, hd, -, rfl⟩ := outcome_parseProgram.1 h
    exact hd.program_wellFormed
  | setName _ h ih => exact ih.setName h
  | swapContext _ h ih => exact ih.swapContext h
  | swapBody _ h ih => exact ih.swapBody h

/-! ### The draft of a program -/

/-- An entry of a context as a definition. -/
def definitionOf (e : String × Statement) : Definition := ⟨e.1, e.2.splice⟩

/-- A program as it is written, with its definitions in ascending order. -/
def draft (p : Program) : Draft := ⟨p.name, p.context.entries.map definitionOf, p.body.splice⟩

/-- The words of a program are those of its draft. -/
theorem words_draft (p : Program) : p.draft.words = p.words := by
  have hdefinition : ∀ e, (definitionOf e).words = definitionWords e := by
    intro e
    simp only [definitionOf, Definition.words, definitionWords, Statement.wordsOf_splice]
  simp only [draft, Draft.words, words, List.flatMap_map, hdefinition, Statement.wordsOf_splice]

/-- A well-formed program is what its draft denotes. -/
theorem WellFormed.denotes {p : Program} (h : p.WellFormed) : p.draft.Denotes p := by
  refine ⟨rfl, (Statement.block_splice_eq h.block h.flat).symm, fun n s => ?_⟩
  rw [Context.find?_eq_some_iff]
  have hbody : ∀ e ∈ p.context.entries, .block (definitionOf e).body = e.2 := fun e he =>
    Statement.block_splice_eq (h.context e he).block (h.context e he).flat
  constructor
  · intro hmem
    exact ⟨_, List.mem_map_of_mem hmem, rfl, (hbody _ hmem).symm⟩
  · intro h
    obtain ⟨d, hd, rfl, rfl⟩ := h
    obtain ⟨e, he, rfl⟩ := List.mem_map.1 hd
    rw [hbody e he]
    exact he

/-! ### Programs read back -/

/-- All parts of the program are recoverable. -/
structure Recoverable (p : Program) : Prop where
  body : p.body.Recoverable
  entries : ∀ e ∈ p.context.entries, e.2.Recoverable

/-- The draft of a well-formed program is in order if the program is recoverable. -/
theorem Recoverable.draft {p : Program} (hp : p.WellFormed) (h : p.Recoverable) :
    p.draft.WellFormed := by
  refine ⟨hp.named, ?_, ?_, Statement.allReadable_splice.2 h.body⟩
  · intro d hd
    obtain ⟨e, he, rfl⟩ := List.mem_map.1 hd
    have hallowed := hp.context e he
    exact ⟨hallowed.named, hallowed.own, Statement.allReadable_splice.2 (h.entries e he)⟩
  · have hnames : p.draft.definitions.map Definition.name = p.context.entries.map Prod.fst := by
      rw [Program.draft, List.map_map]
      rfl
    rw [hnames, List.Nodup, List.pairwise_map]
    exact p.context.sorted.imp String.ne_of_lt

/-- What a draft in order writes is recoverable. -/
theorem recoverable_of_draft {d : Draft} (h : d.WellFormed) : d.program.Recoverable := by
  refine ⟨Statement.recoverable_block h.readable, ?_⟩
  intro e he
  have hdenotes := h.denotes_iff.2 rfl
  obtain ⟨f, hf, -, heq⟩ := (hdenotes.context e.1 e.2).1 (Context.find?_eq_some_iff.2 he)
  rw [heq]
  exact Statement.recoverable_block (h.definitions f hf).readable

/-- A text written for a well-formed and recoverable program has the words of the
    program as its tokens. -/
theorem texts_tokenize_lines {p : Program} (hp : p.WellFormed) (h : p.Recoverable)
    (indent : Nat) : texts (tokenize (joinLines (p.lines indent))) = p.words ++ [endMark] := by
  have hlines := p.words_lines indent
  have hwords : AllWords ((p.lines indent).flatMap Line.words) := by
    rw [hlines, ← words_draft]
    exact (h.draft hp).allWords
  rw [texts_tokenize_joinLines hwords, hlines]

/-- What is read is recoverable. -/
theorem recoverable_of_parse {source : String} {p : Program} (h : parse source = .ok p) :
    p.Recoverable := by
  obtain ⟨d, hd, -, rfl⟩ := outcome_parseProgram.1 h
  exact recoverable_of_draft hd

/-- **Programs read back.**  Any program that can be built is written if its lines
    fit, and it is read back from the text exactly when it is recoverable.  What has
    been read before is read back and written alike. -/
theorem print_parse_iff (p : Program) (hp : p.Reachable) (indent : Nat)
    (h : ∀ l ∈ p.lines indent, l.indent ≤ widestIndent) :
    ∃ text, p.print indent = .ok text ∧ (parse text = .ok p ↔ p.Recoverable) ∧
      ∀ source, parse source = .ok p →
        ∃ q, parse text = .ok q ∧ q = p ∧ q.print indent = .ok text := by
  have hformed := hp.wellFormed
  have hprint : p.print indent = .ok (joinLines (p.lines indent)) := render_eq_ok h
  -- The text has the words of the draft, and the program is what the draft denotes.
  have hback : p.Recoverable → parse (joinLines (p.lines indent)) = .ok p := by
    intro hrecoverable
    have hdraft := hrecoverable.draft hformed
    refine outcome_parseProgram.2 ⟨p.draft, hdraft, ?_, hdraft.denotes_iff.1 hformed.denotes⟩
    rw [words_draft]
    exact texts_tokenize_lines hformed hrecoverable indent
  refine ⟨_, hprint, ⟨recoverable_of_parse, hback⟩, fun source hsource => ?_⟩
  exact ⟨p, hback (recoverable_of_parse hsource), rfl, hprint⟩

/-- A program with a definition and a loop is written and read back. -/
theorem print_parse_definition_and_loop :
    ∃ p, parse "PROGRAM A IS INSTRUCTION B IS move END B BEGIN WHILE true DO B END WHILE END A" =
        .ok p ∧
      (p.Reachable ∧ ∀ l ∈ p.lines 2, l.indent ≤ widestIndent) ∧
      ∃ text, p.print 2 = .ok text ∧ (parse text = .ok p ↔ p.Recoverable) ∧
        ∀ source, parse source = .ok p →
          ∃ q, parse text = .ok q ∧ q = p ∧ q.print 2 = .ok text := by
  have hread : parse
      "PROGRAM A IS INSTRUCTION B IS move END B BEGIN WHILE true DO B END WHILE END A" =
      .ok ⟨"A", Context.empty.insert "B" (.block [.call "move"]),
        .block [.whileDo .always [.call "B"]]⟩ := by decide +kernel
  have hfits : ∀ l ∈ (Program.mk "A" (Context.empty.insert "B" (.block [.call "move"]))
      (.block [.whileDo .always [.call "B"]])).lines 2, l.indent ≤ widestIndent := by decide +kernel
  exact ⟨_, hread, ⟨.parsed hread, hfits⟩, print_parse_iff _ (.parsed hread) 2 hfits⟩

end Program

end BlockLanguage
