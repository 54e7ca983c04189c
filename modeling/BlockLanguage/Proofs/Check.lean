import BlockLanguage.CommandLine.Run
import BlockLanguage.Proofs.RoundTrip

namespace BlockLanguage

/-!
# Checking files

A file is checked by writing its program anew and reading that again.  For a program that
was read neither of the two can fail: its lines are indented little enough, and what is
written has the words of the program.  So the check succeeds exactly on programs.

* `Program.Recoverable.indent_le_of_mem_lines` — how far the lines of a program are indented;
* `Program.print_of_parse` — a program that was read is written and read back;
* `Context.perm_entries_extend`, `Draft.WellFormed.count_words` — definitions admitted are
  all kept, and the words of a draft count them;
* `FileHolds` — a file whose bytes are the text of a program;
* `check_succeeds_on_programs` — the command as it is seen from outside.
-/

/-! ### How far lines are indented -/

/-- No line of a statement is indented further than its nesting allows. -/
theorem Statement.indent_le_of_mem_lines (indent : Nat) :
    (∀ (s : Statement) (offset : Nat), ∀ l ∈ s.lines indent offset,
      l.indent ≤ offset + indent * s.nesting) ∧
    ∀ (ss : List Statement) (offset : Nat), ∀ l ∈ linesOf indent offset ss,
      l.indent ≤ offset + indent * nestingOf ss := by
  -- One level more is one indent more.
  have hlevel : ∀ {l offset n m : Nat}, l ≤ offset + indent + indent * n → n ≤ m →
      l ≤ offset + indent * (m + 1) := by
    intro l offset n m hl hnm
    have hmul := Nat.mul_le_mul_left indent hnm
    rw [Nat.mul_succ]
    omega
  have hmargin : ∀ offset n : Nat, offset ≤ offset + indent * n := fun _ _ =>
    Nat.le_add_right _ _
  refine induction ?_ ?_ ?_ ?_ ?_ ?_ ?_
  · intro cs ih
    exact ih
  · intro c b ih offset
    simp only [lines, nesting, List.forall_mem_append, List.forall_mem_singleton]
    exact ⟨⟨hmargin _ _, fun l hl => hlevel (ih _ l hl) (Nat.le_refl _)⟩, hmargin _ _⟩
  · intro c a b iha ihb offset
    simp only [lines, nesting, List.forall_mem_append, List.forall_mem_singleton]
    exact ⟨⟨⟨⟨hmargin _ _, fun l hl => hlevel (iha _ l hl) (Nat.le_max_left _ _)⟩,
      hmargin _ _⟩, fun l hl => hlevel (ihb _ l hl) (Nat.le_max_right _ _)⟩, hmargin _ _⟩
  · intro c b ih offset
    simp only [lines, nesting, List.forall_mem_append, List.forall_mem_singleton]
    exact ⟨⟨hmargin _ _, fun l hl => hlevel (ih _ l hl) (Nat.le_refl _)⟩, hmargin _ _⟩
  · intro n offset
    simp only [lines, List.forall_mem_singleton]
    exact hmargin _ _
  · intro offset
    simp [linesOf]
  · intro s ss ihs ihss offset
    have hleft := Nat.mul_le_mul_left indent (Nat.le_max_left s.nesting (nestingOf ss))
    have hright := Nat.mul_le_mul_left indent (Nat.le_max_right s.nesting (nestingOf ss))
    simp only [linesOf, nestingOf, List.forall_mem_append]
    exact ⟨fun l hl => Nat.le_trans (ihs _ l hl) (Nat.add_le_add_left hleft _),
      fun l hl => Nat.le_trans (ihss _ l hl) (Nat.add_le_add_left hright _)⟩

namespace Program

/-- No line of a recoverable program is indented by more than two levels over the greatest
    nesting that is read. -/
theorem Recoverable.indent_le_of_mem_lines {p : Program} (h : p.Recoverable) (indent : Nat) :
    ∀ l ∈ p.lines indent, l.indent ≤ indent * (nestingLimit + 2) := by
  -- The bound for a statement that starts at most two levels from the margin.
  have hstatement : ∀ (s : Statement) (offset : Nat), s.Recoverable → offset ≤ indent + indent →
      ∀ l ∈ s.lines indent offset, l.indent ≤ indent * (nestingLimit + 2) := by
    intro s offset hs hoffset l hl
    have hline := (Statement.indent_le_of_mem_lines indent).1 s offset l hl
    have hnesting := Nat.mul_le_mul_left indent hs.shallow
    rw [Nat.mul_add]
    omega
  have hone : indent ≤ indent * (nestingLimit + 2) := Nat.le_mul_of_pos_right _ (by omega)
  have hdefinitions : ∀ l ∈ p.context.entries.flatMap (definitionLines indent),
      l.indent ≤ indent * (nestingLimit + 2) := by
    intro l hl
    obtain ⟨e, he, hl⟩ := List.mem_flatMap.1 hl
    have hbody := hstatement e.2 (indent + indent) (h.entries e he) (Nat.le_refl _)
    simp only [definitionLines, List.mem_append, List.mem_cons, List.not_mem_nil, or_false] at hl
    rcases hl with (rfl | hl) | rfl | rfl
    · exact hone
    · exact hbody l hl
    · exact hone
    · exact Nat.zero_le _
  have hbody := hstatement p.body indent h.body (Nat.le_add_right _ _)
  simp only [lines, List.forall_mem_append, List.forall_mem_cons, List.not_mem_nil,
    false_implies, implies_true, Nat.zero_le, true_and, and_true]
  exact ⟨hdefinitions, hbody⟩

/-! ### Programs that were read -/

/-- The lines of a well-formed and recoverable program hold the program. -/
theorem Recoverable.parse_joinLines {p : Program} (hp : p.WellFormed) (h : p.Recoverable)
    (indent : Nat) : parse (joinLines (p.lines indent)) = .ok p := by
  have hdraft := h.draft hp
  refine outcome_parseProgram.2 ⟨p.draft, hdraft, ?_, hdraft.denotes_iff.1 hp.denotes⟩
  rw [words_draft]
  exact texts_tokenize_lines hp h indent

/-- A program that was read is written, and read back from what is written. -/
theorem print_of_parse {source : String} {p : Program} (h : parse source = .ok p) :
    ∃ text, p.print defaultIndent = .ok text ∧ parse text = .ok p := by
  have hp := (Reachable.parsed h).wellFormed
  have hrecoverable := recoverable_of_parse h
  refine ⟨_, render_eq_ok fun l hl => ?_, hrecoverable.parse_joinLines hp defaultIndent⟩
  have hwidest : defaultIndent * (nestingLimit + 2) ≤ widestIndent := by decide
  exact Nat.le_trans (hrecoverable.indent_le_of_mem_lines defaultIndent l hl) hwidest

end Program

/-! ### Counting definitions -/

namespace Context

/-- The insertion of a name that no entry has keeps all entries. -/
theorem perm_insertEntry {name : String} {body : Statement} {es : List (String × Statement)}
    (h : ∀ e ∈ es, name ≠ e.1) : (insertEntry name body es).Perm ((name, body) :: es) := by
  induction es with
  | nil => exact .refl _
  | cons e es ih =>
    rw [List.forall_mem_cons] at h
    rw [insertEntry, if_neg h.1]
    split
    · exact .refl _
    · exact ((ih h.2).cons e).trans (.swap _ _ _)

/-- A definition with a free name is one entry more. -/
theorem perm_entries_define {c : Context} {d : Definition} (h : c.contains d.name = false) :
    (c.define d).entries.Perm ((d.name, .block d.body) :: c.entries) := by
  apply perm_insertEntry
  intro e he heq
  have hfind : c.find? d.name = some e.2 := find?_eq_some_iff.2 (heq ▸ he)
  simp [contains, hfind] at h

/-- Definitions that are admitted are all kept, each as an entry. -/
theorem perm_entries_extend {c : Context} {ds : List Definition} (h : c.Admits ds) :
    (c.extend ds).entries.Perm (ds.map (fun d => (d.name, .block d.body)) ++ c.entries) := by
  induction ds generalizing c with
  | nil => exact .refl _
  | cons d ds ih =>
    obtain ⟨-, hfree, hds⟩ := h
    have hlast := (perm_entries_define hfree).append_left
      (ds.map fun d => (d.name, Statement.block d.body))
    rw [extend_cons]
    exact ((ih hds).trans hlast).trans List.perm_middle

/-- So a context grows by their number. -/
theorem size_extend {c : Context} {ds : List Definition} (h : c.Admits ds) :
    (c.extend ds).size = c.size + ds.length := by
  have hlength := (perm_entries_extend h).length_eq
  rw [List.length_append, List.length_map] at hlength
  rw [size, hlength, size, Nat.add_comm]

end Context

/-- A name is not the word that opens a definition. -/
theorem ne_instruction_of_isIdentifier {w : String} (h : isIdentifier w = true) :
    w ≠ Keyword.instruction.text := by
  rintro rfl
  simp at h

/-- No statement that is read holds the word that opens a definition. -/
theorem Statement.AllReadable.count_words {budget : Nat} {ss : List Statement}
    (h : AllReadable budget ss) : (wordsOf ss).count Keyword.instruction.text = 0 := by
  have hother : ∀ w ∈ wordsOf ss, w ≠ Keyword.instruction.text :=
    (forall_mem_words (by decide) (by intro c; cases c <;> decide)).2 ss fun name hname =>
      ne_instruction_of_isIdentifier (h.named name hname)
  exact List.count_eq_zero.2 fun hmem => hother _ hmem rfl

/-- The word that opens a definition stands in it once. -/
theorem Definition.WellFormed.count_words {d : Definition} (h : d.WellFormed) :
    d.words.count Keyword.instruction.text = 1 := by
  have hname := ne_instruction_of_isIdentifier h.named
  simp [Definition.words, Keyword.text_inj, hname, h.readable.count_words]

/-- The words of definitions in order count them. -/
theorem count_words_definitions {ds : List Definition} (h : ∀ d ∈ ds, d.WellFormed) :
    (ds.flatMap Definition.words).count Keyword.instruction.text = ds.length := by
  induction ds with
  | nil => rfl
  | cons d ds ih =>
    rw [List.forall_mem_cons] at h
    rw [List.flatMap_cons, List.count_append, h.1.count_words, ih h.2, List.length_cons]
    omega

/-- The words of a draft in order count its definitions. -/
theorem Draft.WellFormed.count_words {d : Draft} (h : d.WellFormed) :
    d.words.count Keyword.instruction.text = d.definitions.length := by
  have hname := ne_instruction_of_isIdentifier h.named
  have hdefinitions := count_words_definitions h.definitions
  simp [Draft.words, Keyword.text_inj, hname, hdefinitions, h.readable.count_words]

/-- A program that was read has as many definitions as tokens that open one. -/
theorem size_of_parse {source : String} {p : Program} (h : parse source = .ok p) :
    p.context.size = (texts (tokenize source)).count Keyword.instruction.text := by
  obtain ⟨d, hd, hwords, rfl⟩ := outcome_parseProgram.1 h
  have hmark : endMark ≠ Keyword.instruction.text := by decide
  rw [hwords, List.count_append, hd.count_words, List.count_singleton]
  show (Context.empty.extend d.definitions).size = _
  rw [Context.size_extend hd.admits]
  simp [hmark, Context.size, Context.empty]

/-! ### The command -/

/-- A check fails with the error of the text where the text holds no program. -/
theorem runCheck_error (file : String) {source : String} {e : Error} (h : parse source = .error e) :
    Command.runCheck file source =
      .failed e.message ((readProgram source).events.map Event.logLine) := by
  change (readProgram source).outcome = _ at h
  simp only [Command.runCheck, h]

/-- What a check tells of a program for which `count` definitions were found. -/
def passedText (file : String) (p : Program) (count : Nat) : String :=
  file ++ ": ok (program " ++ p.name ++ ", " ++ toString count ++ " instruction(s))\n"

/-- A check of a program succeeds, and tells how many definitions the text has. -/
theorem runCheck_ok (file : String) {source : String} {p : Program} (h : parse source = .ok p) :
    ∃ log, Command.runCheck file source =
      ⟨passedText file p ((texts (tokenize source)).count Keyword.instruction.text), log,
        .success⟩ := by
  obtain ⟨text, hprint, hback⟩ := Program.print_of_parse h
  rw [← size_of_parse h]
  change (readProgram source).outcome = _ at h
  change (readProgram text).outcome = _ at hback
  simp [Command.runCheck, passedText, h, hprint, hback]

/-- The bytes of a file can be read, and are a text that holds a program. -/
def FileHolds (readFile : String → Except FileError ByteArray) (file source : String)
    (p : Program) : Prop :=
  ∃ bytes, readFile file = .ok bytes ∧ decodeText bytes = .ok source ∧ parse source = .ok p

variable {readFile : String → Except FileError ByteArray} {file : String}

/-- The text of a file that holds a program is what is checked. -/
theorem FileHolds.run_check {source : String} {p : Program} (h : FileHolds readFile file source p) :
    (Command.check file).run readFile = Command.runCheck file source := by
  obtain ⟨bytes, hread, hdecode, -⟩ := h
  simp only [Command.run, Command.readText, hread, hdecode]

theorem FileHolds.parse {source : String} {p : Program} (h : FileHolds readFile file source p) :
    parse source = .ok p := by
  obtain ⟨_, -, -, hparse⟩ := h
  exact hparse

/-- The check of a file that holds no program fails. -/
theorem run_check_failed (h : ¬ ∃ source p, FileHolds readFile file source p) :
    ∃ message log, (Command.check file).run readFile = .failed message log := by
  simp only [Command.run, Command.readText]
  cases hread : readFile file with
  | error e => exact ⟨_, _, rfl⟩
  | ok bytes =>
    dsimp only
    cases hdecode : decodeText bytes with
    | error e => exact ⟨_, _, rfl⟩
    | ok source =>
      cases hparse : parse source with
      | error e => exact ⟨_, _, runCheck_error file hparse⟩
      | ok p => exact absurd ⟨source, p, bytes, hread, hdecode, hparse⟩ h

/-- **Checks succeed on programs.**  The command that checks a file ends well exactly if
    the file can be read and is a text that holds a program.  The program is then written,
    what is written is read as the same program, and the command tells the name of the
    program and how many tokens of the file open a definition.  Otherwise the exit code is
    one, and nothing is put out. -/
theorem check_succeeds_on_programs (filter : Option LogFilter)
    (readFile : String → Except FileError ByteArray) {args : List String} {verbose : Bool}
    {file : String} (h : Request.ofArguments? args = some (.run verbose (.check file))) :
    ((runArguments filter readFile args).code = 0 ↔ ∃ source p, FileHolds readFile file source p) ∧
    (∀ source p, FileHolds readFile file source p →
      (∃ text, p.print defaultIndent = .ok text ∧ parse text = .ok p) ∧
      (runArguments filter readFile args).output =
        passedText file p ((texts (tokenize source)).count Keyword.instruction.text)) ∧
    ((runArguments filter readFile args).code ≠ 0 →
      (runArguments filter readFile args).code = 1 ∧
      (runArguments filter readFile args).output = "") := by
  have hrun : runArguments filter readFile args =
      ((Command.check file).run readFile).outcome (filter.getD (.ofVerbose verbose)) := by
    rw [runArguments, h]
  generalize filter.getD (.ofVerbose verbose) = shown at hrun
  have hgood : ∀ source p, FileHolds readFile file source p →
      (runArguments filter readFile args).code = 0 ∧
      (runArguments filter readFile args).output =
        passedText file p ((texts (tokenize source)).count Keyword.instruction.text) := by
    intro source p hholds
    obtain ⟨log, hreport⟩ := runCheck_ok file hholds.parse
    rw [hrun, hholds.run_check, hreport]
    exact ⟨rfl, rfl⟩
  have hbad : (¬ ∃ source p, FileHolds readFile file source p) →
      (runArguments filter readFile args).code = 1 ∧
      (runArguments filter readFile args).output = "" := by
    intro hnone
    obtain ⟨message, log, hreport⟩ := run_check_failed hnone
    rw [hrun, hreport]
    exact ⟨rfl, rfl⟩
  by_cases hholds : ∃ source p, FileHolds readFile file source p
  · obtain ⟨source, p, h⟩ := hholds
    have hcode := (hgood source p h).1
    refine ⟨⟨fun _ => ⟨source, p, h⟩, fun _ => hcode⟩, fun source p h => ?_, absurd hcode⟩
    exact ⟨Program.print_of_parse h.parse, (hgood source p h).2⟩
  · refine ⟨⟨fun hcode => ?_, fun h => absurd h hholds⟩, fun source p h => ?_, fun _ => hbad hholds⟩
    · rw [(hbad hholds).1] at hcode
      cases hcode
    · exact absurd ⟨source, p, h⟩ hholds

/-- A file with one definition passes the check, and a file that is not there fails it. -/
theorem check_succeeds_on_one_definition :
    Request.ofArguments? ["check", "p.bl"] = some (.run false (.check "p.bl")) ∧
    (runArguments none
      (fun _ => .ok "PROGRAM A IS INSTRUCTION B IS move END B BEGIN B END A".toUTF8)
      ["check", "p.bl"]).output = "p.bl: ok (program A, 1 instruction(s))\n" ∧
    (runArguments none (fun _ => .error .notFound) ["check", "p.bl"]).code = 1 := by
  have hrequest : Request.ofArguments? ["check", "p.bl"] = some (.run false (.check "p.bl")) := by
    decide +kernel
  have hholds : FileHolds
      (fun _ => .ok "PROGRAM A IS INSTRUCTION B IS move END B BEGIN B END A".toUTF8) "p.bl"
      "PROGRAM A IS INSTRUCTION B IS move END B BEGIN B END A"
      ⟨"A", Context.empty.insert "B" (.block [.call "move"]), .block [.call "B"]⟩ :=
    ⟨_, rfl, by decide +kernel, by decide +kernel⟩
  have hcode : (runArguments none (fun _ => .error .notFound) ["check", "p.bl"]).code ≠ 0 := by
    decide +kernel
  refine ⟨hrequest, ?_, ((check_succeeds_on_programs none _ hrequest).2.2 hcode).1⟩
  have houtput := ((check_succeeds_on_programs none _ hrequest).2.1 _ _ hholds).2
  rw [houtput]
  decide +kernel

end BlockLanguage
