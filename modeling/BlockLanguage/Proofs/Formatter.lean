import BlockLanguage.Proofs.Check
import BlockLanguage.Proofs.Decimal
import BlockLanguage.Proofs.Editing
import BlockLanguage.Proofs.Margins

namespace BlockLanguage

/-!
# Writing files anew

Two commands read a file and write anew what it holds, a program or statements.  Where the file
gives no text that can be read, a command fails before it writes anything.  Otherwise the lines
to be written are known, and it succeeds if all of them can be.  Then it has written these lines
and, unless an outline is asked for, nothing else; from them it would write the same again.

* `Formatter`, `Formatter.command`, `Formatter.layout` — the commands, and the lines for a text;
* `Formatter.ofArguments?_arguments` — how a command is asked for with any indent;
* `Formatter.layout_joinLines` — the lines for a text that consists of the lines for another;
* `Formatter.Fails`, `Formatter.Holds` — files without a text that can be read, and with one;
* `Formatter.Fails.run`, `Formatter.Holds.run` — the report of the command on either;
* `Formatter.code_eq_one_iff`, `Formatter.code_eq_zero_iff` — where it fails and where it
  succeeds;
* `formatting_succeeds_where_lines_fit` — the commands as they are seen from outside.
-/

/-! ### Asking for a command -/

/-- What is no option holds no value of one. -/
theorem restAfter?_of_not_isOption {s : String} (h : isOption s = false) :
    restAfter? "--indent=" s = none := by
  unfold restAfter?
  rw [if_neg]
  intro hprefix
  obtain ⟨rest, hrest⟩ := List.isPrefixOf_iff_prefix.1 hprefix
  unfold isOption at h
  rw [← hrest] at h
  cases h

/-- An indent is read behind its option. -/
theorem Options.read?_indent {verb : Verb} {o : Options} {value : String} {indent : Nat}
    (hverb : verb.hasIndent = true) (ho : o.indent = none)
    (hvalue : isOption value = false) (hread : readIndent? value = some indent)
    (rest : List String) :
    o.read? verb ("--indent" :: value :: rest) =
      Options.read? verb { o with indent := some indent } rest := by
  rw [Options.read?]
  simp [hverb, hvalue, Options.addIndent?, ho, hread]

/-- A file alone is read as the file. -/
theorem Options.read?_file {verb : Verb} {o : Options} {file : String} (ho : o.file = none)
    (hname : file ≠ "") (hfile : isOption file = false) :
    o.read? verb [file] = some { o with file := some file } := by
  have hother : ∀ a : String, isOption a = true → file ≠ a := by
    intro a ha heq
    rw [heq, ha] at hfile
    cases hfile
  have hend := hother "--" (by decide +kernel)
  have hv := hother "-v" (by decide +kernel)
  have hverbose := hother "--verbose" (by decide +kernel)
  have htree := hother "--show-ast" (by decide +kernel)
  have hindent := hother "--indent" (by decide +kernel)
  simp [Options.read?, Options.addFile?, hend, hv, hverbose, htree, hindent, hfile, ho, hname,
    restAfter?_of_not_isOption hfile]

/-- A word that is a verb asks for its command. -/
theorem Request.ofArguments?_verb {a : String} {verb : Verb} (ha : isOption a = false)
    (hverb : Verb.ofText? a = some verb) {rest : List String} {o : Options} {command : Command}
    (hread : Options.empty.read? verb rest = some o) (hcommand : o.command? verb = some command) :
    Request.ofArguments? (a :: rest) = some (.run o.verbose command) :=
  (Request.read?_word ha).2 ⟨verb, o, command, hverb, hread, hcommand, rfl⟩

/-! ### Commands that write anew -/

/-- A command that writes anew what a file holds: a program, behind its outline if `showTree`
    asks for it, or statements. -/
inductive Formatter
  | program (showTree : Bool)
  | statements
  deriving DecidableEq, Repr

namespace Formatter

/-- The command for a file. -/
def command (f : Formatter) (file : String) (indent : Option Nat) : Command :=
  match f with
  | program showTree => .parse file indent showTree
  | statements => .block file indent

/-- What is to be written for a text: its lines, for any indent. -/
def layout (f : Formatter) (source : String) : Except Error (Nat → List Line) :=
  match f with
  | program _ => (parse source).map fun p indent => p.lines indent
  | statements => (parseStatements source).map fun s indent => s.lines indent 0

/-- Arguments that ask for the command with an indent. -/
def arguments (f : Formatter) (indent : Nat) (file : String) : List String :=
  match f with
  | program true => ["parse", "--show-ast", "--indent", toString indent, file]
  | program false => ["parse", "--indent", toString indent, file]
  | statements => ["block", "--indent", toString indent, file]

/-- **Any indent.**  Each command can be asked for with any indent below the bound. -/
theorem ofArguments?_arguments (f : Formatter) {indent : Nat} (hindent : indent < indentBound)
    {file : String} (hname : file ≠ "") (hfile : isOption file = false) :
    Request.ofArguments? (f.arguments indent file) =
      some (.run false (f.command file (some indent))) := by
  have hread := readIndent?_toString hindent
  have hnumber := isOption_toString indent
  have hbehind : ∀ (verb : Verb) (showTree : Bool), verb.hasIndent = true →
      Options.read? verb ⟨false, none, showTree, none⟩ ["--indent", toString indent, file] =
        some ⟨false, some indent, showTree, some file⟩ := by
    intro verb showTree hverb
    rw [Options.read?_indent hverb rfl hnumber hread, Options.read?_file rfl hname hfile]
  match f with
  | program true =>
    have htree : Options.empty.read? .parse ["--show-ast", "--indent", toString indent, file] =
        Options.read? .parse ⟨false, none, true, none⟩ ["--indent", toString indent, file] := rfl
    have hparse := htree.trans (hbehind .parse true rfl)
    exact Request.ofArguments?_verb (by decide +kernel) rfl hparse rfl
  | program false =>
    exact Request.ofArguments?_verb (by decide +kernel) rfl (hbehind .parse false rfl) rfl
  | statements =>
    exact Request.ofArguments?_verb (by decide +kernel) rfl (hbehind .block false rfl) rfl

/-! ### Lines written anew -/

/-- The lines for a text make a text for which the same is to be written. -/
theorem layout_joinLines {f : Formatter} {source : String} {layout : Nat → List Line}
    (h : f.layout source = .ok layout) (indent : Nat) :
    f.layout (joinLines (layout indent)) = .ok layout := by
  cases f with
  | program showTree =>
    obtain ⟨p, hparse, rfl⟩ := map_eq_ok_iff.1 h
    have hback := (Program.recoverable_of_parse hparse).parse_joinLines
      (Program.Reachable.parsed hparse).wellFormed indent
    exact map_eq_ok_iff.2 ⟨p, hback, rfl⟩
  | statements =>
    obtain ⟨s, hparse, rfl⟩ := map_eq_ok_iff.1 h
    obtain ⟨body, hbody, -, rfl⟩ := outcome_readStatements.1 hparse
    have hwords := Statement.texts_tokenize_lines (s := .block body) hbody.named indent 0
    exact map_eq_ok_iff.2 ⟨_, outcome_readStatements.2 ⟨body, hbody, hwords, rfl⟩, rfl⟩

/-! ### What a file holds -/

variable {f : Formatter} {readFile : String → Except FileError ByteArray} {file : String}
  {indent : Option Nat} {layout : Nat → List Line}

/-- The file gives no text that can be read: it is missing, its bytes are the encoding of no
    text, or reading the text fails. -/
inductive Fails (f : Formatter) (readFile : String → Except FileError ByteArray)
    (file : String) : Prop
  | missing {e : FileError} (h : readFile file = .error e)
  | notText {bytes : ByteArray} (h : readFile file = .ok bytes)
      (other : ∀ s : String, bytes ≠ s.toUTF8)
  | refused {source : String} {e : Error} (h : readFile file = .ok source.toUTF8)
      (refused : f.layout source = .error e)

/-- The file holds a text for which `layout` is to be written. -/
def Holds (f : Formatter) (readFile : String → Except FileError ByteArray) (file : String)
    (layout : Nat → List Line) : Prop :=
  ∃ source : String, readFile file = .ok source.toUTF8 ∧ f.layout source = .ok layout

/-- A file gives no text that can be read, or it is known what is to be written for it. -/
theorem fails_or_holds (f : Formatter) (readFile : String → Except FileError ByteArray)
    (file : String) : f.Fails readFile file ∨ ∃ layout, f.Holds readFile file layout := by
  cases hread : readFile file with
  | error e => exact .inl (.missing hread)
  | ok bytes =>
    by_cases htext : ∃ s : String, bytes = s.toUTF8
    · obtain ⟨source, rfl⟩ := htext
      cases hlayout : f.layout source with
      | error e => exact .inl (.refused hread hlayout)
      | ok layout => exact .inr ⟨layout, source, hread, hlayout⟩
    · exact .inl (.notText hread fun s hs => htext ⟨s, hs⟩)

/-! ### Reports -/

/-- A command on a file that cannot be read fails. -/
theorem run_of_readText_error {e : FileError} (h : Command.readText readFile file = .error e) :
    ∃ message log, (f.command file indent).run readFile = .failed message log := by
  cases f with
  | program showTree => exact ⟨_, _, by simp only [command, Command.run, h]; rfl⟩
  | statements => exact ⟨_, _, by simp only [command, Command.run, h]; rfl⟩

/-- A command on a file without a text that can be read fails. -/
theorem Fails.run (h : f.Fails readFile file) (indent : Option Nat) :
    ∃ message log, (f.command file indent).run readFile = .failed message log := by
  cases h with
  | @missing e h => exact run_of_readText_error (by rw [Command.readText, h])
  | @notText bytes h other =>
    cases htext : Command.readText readFile file with
    | error e => exact run_of_readText_error htext
    | ok source =>
      rw [Command.readText_eq_ok_iff, h] at htext
      exact absurd (Except.ok.inj htext) (other source)
  | @refused source e h refused =>
    have htext := Command.readText_eq_ok_iff.2 h
    cases f with
    | program showTree =>
      have hparse : (readProgram source).outcome = .error e := map_eq_error_iff.1 refused
      exact ⟨_, _, by simp only [command, Command.run, htext, Command.runParse, hparse]; rfl⟩
    | statements =>
      have hparse : (readStatements source).outcome = .error e := map_eq_error_iff.1 refused
      exact ⟨_, _, by simp only [command, Command.run, htext, Command.runBlock, hparse]; rfl⟩

/-- A command on any other file writes the lines to be written, and nothing in front of them
    unless an outline is asked for. -/
theorem Holds.run (h : f.Holds readFile file layout) (indent : Option Nat) :
    ∃ head log, (f.command file indent).run readFile =
        .written head (layout (indent.getD defaultIndent)) log ∧
      (f ≠ .program true → head = "") := by
  obtain ⟨source, hread, hlayout⟩ := h
  have htext := Command.readText_eq_ok_iff.2 hread
  cases f with
  | program showTree =>
    obtain ⟨p, hparse, rfl⟩ := map_eq_ok_iff.1 hlayout
    change (readProgram source).outcome = .ok p at hparse
    refine ⟨_, _, by simp only [command, Command.run, htext, Command.runParse, hparse]; rfl, ?_⟩
    intro hf
    cases showTree with
    | true => exact absurd rfl hf
    | false => rfl
  | statements =>
    obtain ⟨s, hparse, rfl⟩ := map_eq_ok_iff.1 hlayout
    change (readStatements source).outcome = .ok s at hparse
    exact ⟨_, _, by simp only [command, Command.run, htext, Command.runBlock, hparse]; rfl,
      fun _ => rfl⟩

end Formatter

/-! ### The commands -/

/-- The lines `ls` can be written, or one of them is too wide. -/
theorem fit_or_wide (ls : List Line) :
    (∀ l ∈ ls, l.indent ≤ widestIndent) ∨ ∃ l ∈ ls, widestIndent < l.indent := by
  by_cases hwide : ∃ l ∈ ls, widestIndent < l.indent
  · exact .inr hwide
  · refine .inl fun l hl => ?_
    by_contra hlt
    exact hwide ⟨l, hl, by omega⟩

namespace Formatter

section

variable {f : Formatter} {filter : Option LogFilter}
  {readFile : String → Except FileError ByteArray} {args : List String} {verbose : Bool}
  {file : String} {indent : Option Nat} {layout : Nat → List Line}

/-- Where there is no text that can be read, the command fails and puts nothing out. -/
theorem Fails.outcome (hfile : f.Fails readFile file)
    (h : Request.ofArguments? args = some (.run verbose (f.command file indent))) :
    (runArguments filter readFile args).code = 1 ∧
      (runArguments filter readFile args).output = "" := by
  obtain ⟨message, log, hreport⟩ := hfile.run indent
  rw [runArguments_of_request h, hreport]
  exact ⟨rfl, rfl⟩

/-- Where all lines can be written, the command succeeds and puts them out. -/
theorem Holds.outcome_of_fit (hfile : f.Holds readFile file layout)
    (h : Request.ofArguments? args = some (.run verbose (f.command file indent)))
    (hfit : ∀ l ∈ layout (indent.getD defaultIndent), l.indent ≤ widestIndent) :
    (runArguments filter readFile args).code = 0 ∧ (f ≠ .program true →
      (runArguments filter readFile args).output =
        joinLines (layout (indent.getD defaultIndent))) := by
  obtain ⟨head, log, hreport, hhead⟩ := hfile.run indent
  rw [runArguments_of_request h, hreport, Report.written, render_eq_ok hfit]
  refine ⟨rfl, fun hf => ?_⟩
  show head ++ _ = _
  rw [hhead hf, String.empty_append]

/-- Where a line is too wide, the command is broken off. -/
theorem Holds.outcome_of_wide (hfile : f.Holds readFile file layout)
    (h : Request.ofArguments? args = some (.run verbose (f.command file indent)))
    (hwide : ∃ l ∈ layout (indent.getD defaultIndent), widestIndent < l.indent) :
    (∃ message, ((f.command file indent).run readFile).ending = .brokenOff message) ∧
      (runArguments filter readFile args).code = 101 := by
  obtain ⟨head, log, hreport, -⟩ := hfile.run indent
  rw [runArguments_of_request h, hreport, Report.written, render_eq_error_iff.2 hwide]
  exact ⟨⟨_, rfl⟩, rfl⟩

/-- One of the three is the case, and each has its own exit code. -/
theorem outcome_cases (h : Request.ofArguments? args = some (.run verbose (f.command file indent))) :
    (f.Fails readFile file ∧ (runArguments filter readFile args).code = 1) ∨
    (∃ layout, f.Holds readFile file layout ∧
      (∀ l ∈ layout (indent.getD defaultIndent), l.indent ≤ widestIndent) ∧
      (runArguments filter readFile args).code = 0) ∨
    (runArguments filter readFile args).code = 101 := by
  rcases f.fails_or_holds readFile file with hfile | ⟨layout, hfile⟩
  · exact .inl ⟨hfile, (hfile.outcome h).1⟩
  · rcases fit_or_wide (layout (indent.getD defaultIndent)) with hfit | hwide
    · exact .inr (.inl ⟨layout, hfile, hfit, (hfile.outcome_of_fit h hfit).1⟩)
    · exact .inr (.inr (hfile.outcome_of_wide h hwide).2)

/-- The command fails exactly where there is no text that can be read. -/
theorem code_eq_one_iff
    (h : Request.ofArguments? args = some (.run verbose (f.command file indent))) :
    (runArguments filter readFile args).code = 1 ↔ f.Fails readFile file := by
  refine ⟨fun hcode => ?_, fun hfile => (hfile.outcome h).1⟩
  rcases outcome_cases h with ⟨hfile, -⟩ | ⟨layout, -, -, hzero⟩ | hbroken
  · exact hfile
  · rw [hzero] at hcode
    cases hcode
  · rw [hbroken] at hcode
    cases hcode

/-- The command succeeds exactly where all lines can be written. -/
theorem code_eq_zero_iff
    (h : Request.ofArguments? args = some (.run verbose (f.command file indent))) :
    (runArguments filter readFile args).code = 0 ↔ ∃ layout, f.Holds readFile file layout ∧
      ∀ l ∈ layout (indent.getD defaultIndent), l.indent ≤ widestIndent := by
  constructor
  · intro hcode
    rcases outcome_cases h with ⟨-, hone⟩ | ⟨layout, hfile, hfit, -⟩ | hbroken
    · rw [hone] at hcode
      cases hcode
    · exact ⟨layout, hfile, hfit⟩
    · rw [hbroken] at hcode
      cases hcode
  · rintro ⟨layout, hfile, hfit⟩
    exact (hfile.outcome_of_fit h hfit).1

end

end Formatter

/-- **Writing anew.**  A command that writes anew what a file holds ends with exit code one
    exactly if the file gives no text that can be read, and then it puts nothing out.  It ends
    well exactly if the file holds a text for which all lines can be written.  What it has put
    out then, unless an outline was asked for, is put out again, and well, by the same command
    on any file with this text.  Where a line of the text is too wide the command is broken
    off, with another exit code. -/
theorem formatting_succeeds_where_lines_fit (f : Formatter) (filter : Option LogFilter)
    (readFile : String → Except FileError ByteArray) {args : List String} {verbose : Bool}
    {file : String} {indent : Option Nat}
    (h : Request.ofArguments? args = some (.run verbose (f.command file indent))) :
    let outcome := runArguments filter readFile args
    let width := indent.getD defaultIndent
    (outcome.code = 1 ↔ f.Fails readFile file) ∧
    (outcome.code = 1 → outcome.output = "") ∧
    (outcome.code = 0 ↔ ∃ layout, f.Holds readFile file layout ∧
      ∀ l ∈ layout width, l.indent ≤ widestIndent) ∧
    (outcome.code = 0 → f ≠ .program true →
      ∀ (filter' : Option LogFilter) (readFile' : String → Except FileError ByteArray)
        (args' : List String) (verbose' : Bool) (file' : String),
        Request.ofArguments? args' = some (.run verbose' (f.command file' indent)) →
        readFile' file' = .ok outcome.output.toUTF8 →
        (runArguments filter' readFile' args').code = 0 ∧
          (runArguments filter' readFile' args').output = outcome.output) ∧
    (∀ layout, f.Holds readFile file layout → (∃ l ∈ layout width, widestIndent < l.indent) →
      (∃ message, ((f.command file indent).run readFile).ending = .brokenOff message) ∧
        outcome.code ≠ 0 ∧ outcome.code ≠ 1) := by
  intro outcome width
  refine ⟨Formatter.code_eq_one_iff h, fun hcode => ?_, Formatter.code_eq_zero_iff h, ?_, ?_⟩
  · exact (((Formatter.code_eq_one_iff h).1 hcode).outcome h).2
  · intro hcode hf filter' readFile' args' verbose' file' h' hread
    obtain ⟨layout, hfile, hfit⟩ := (Formatter.code_eq_zero_iff h).1 hcode
    have houtput : outcome.output = joinLines (layout width) := (hfile.outcome_of_fit h hfit).2 hf
    -- What has been put out holds the text of the lines, for which the same lines are written.
    obtain ⟨source, -, hlayout⟩ := hfile
    rw [houtput] at hread ⊢
    have hagain : f.Holds readFile' file' layout :=
      ⟨_, hread, Formatter.layout_joinLines hlayout width⟩
    have hsecond : (runArguments filter' readFile' args').code = 0 ∧
        (f ≠ .program true →
          (runArguments filter' readFile' args').output = joinLines (layout width)) :=
      hagain.outcome_of_fit h' hfit
    exact ⟨hsecond.1, hsecond.2 hf⟩
  · intro layout hfile hline
    obtain ⟨hbroken, hcode⟩ := hfile.outcome_of_wide h hline
    have hcode : outcome.code = 101 := hcode
    exact ⟨hbroken, by omega, by omega⟩

/-- A program is written anew with an indent of three, and again from what has been written.  A
    loop cannot be written with an indent that is too wide for its body. -/
theorem formatting_succeeds_with_small_indent :
    let source := "PROGRAM A IS BEGIN WHILE true DO go END WHILE END A"
    let text := "PROGRAM A IS\n\nBEGIN\n   WHILE true DO\n      go\n   END WHILE\nEND A\n"
    let first := runArguments none (fun _ => .ok source.toUTF8) ["parse", "--indent", "3", "p.bl"]
    let second := runArguments none (fun _ => .ok text.toUTF8) ["-v", "parse", "--indent=3", "q.bl"]
    let wide := runArguments none (fun _ => .ok "WHILE true DO go END WHILE".toUTF8)
      ["block", "--indent", "65536", "s.bl"]
    (Request.ofArguments? ["parse", "--indent", "3", "p.bl"] =
        some (.run false (Formatter.command (.program false) "p.bl" (some 3))) ∧
      first.code = 0 ∧ first.output = text) ∧
    (Request.ofArguments? ["-v", "parse", "--indent=3", "q.bl"] =
        some (.run true (Formatter.command (.program false) "q.bl" (some 3))) ∧
      second.code = 0 ∧ second.output = text) ∧
    (Request.ofArguments? ["block", "--indent", "65536", "s.bl"] =
        some (.run false (Formatter.command .statements "s.bl" (some 65536))) ∧
      wide.code ≠ 0 ∧ wide.code ≠ 1) := by
  intro source text first second wide
  have hprogram : Request.ofArguments? ["parse", "--indent", "3", "p.bl"] =
      some (.run false (Formatter.command (.program false) "p.bl" (some 3))) :=
    Formatter.ofArguments?_arguments (.program false) (show 3 < indentBound by decide) (by decide)
      (by decide +kernel)
  have hagain : Request.ofArguments? ["-v", "parse", "--indent=3", "q.bl"] =
      some (.run true (Formatter.command (.program false) "q.bl" (some 3))) := by decide +kernel
  have hstatements : Request.ofArguments? ["block", "--indent", "65536", "s.bl"] =
      some (.run false (Formatter.command .statements "s.bl" (some 65536))) :=
    Formatter.ofArguments?_arguments .statements (show 65536 < indentBound by decide) (by decide)
      (by decide +kernel)
  have hcode : first.code = 0 := by decide +kernel
  have houtput : first.output = text := by decide +kernel
  have hread : (.ok text.toUTF8 : Except FileError ByteArray) = .ok first.output.toUTF8 := by
    rw [houtput]
  have hloop : Formatter.statements.Holds
      (fun _ => .ok "WHILE true DO go END WHILE".toUTF8) "s.bl"
      fun indent => (Statement.block [.whileDo .always [.call "go"]]).lines indent 0 := by
    have hparse : parseStatements "WHILE true DO go END WHILE" =
        .ok (.block [.whileDo .always [.call "go"]]) := by decide +kernel
    exact ⟨_, rfl, map_eq_ok_iff.2 ⟨_, hparse, rfl⟩⟩
  have hline : ∃ l ∈ (Statement.block [.whileDo .always [.call "go"]]).lines 65536 0,
      widestIndent < l.indent := by decide +kernel
  obtain ⟨-, -, -, hsame, -⟩ := formatting_succeeds_where_lines_fit (.program false) none
    (fun _ => .ok source.toUTF8) hprogram
  obtain ⟨-, -, -, -, hbroken⟩ := formatting_succeeds_where_lines_fit .statements none
    (fun _ => .ok "WHILE true DO go END WHILE".toUTF8) hstatements
  obtain ⟨hcode', houtput'⟩ := hsame hcode (by decide) none (fun _ => .ok text.toUTF8) _ _ _
    hagain hread
  exact ⟨⟨hprogram, hcode, houtput⟩, ⟨hagain, hcode', houtput'.trans houtput⟩, hstatements,
    (hbroken _ hloop hline).2⟩

end BlockLanguage
