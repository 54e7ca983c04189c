import BlockLanguage.CommandLine.Arguments
import BlockLanguage.CommandLine.Log
import BlockLanguage.Layout
import BlockLanguage.Outline.Tree
import BlockLanguage.Parse

namespace BlockLanguage

/-!
# Running a command

A command is a function of the files: `readFile` gives the bytes under a name.

* `Report` — what a command writes and logs, and how it ends;
* `Command.readText` — the text of a file, `Command.readText_eq_ok_iff` — when it is `source`;
* `Command.run` — the report of a command;
* `Outcome`, `Report.outcome` — exit code, standard output and standard error,
  `Report.outcome_eq`, `Report.errors_outcome_trace` — what the filter of log lines does to them;
* `runArguments` — the whole program, `runArguments_of_request` — where they ask for a command.
-/

/-- How a command ends: well, with an error message, or broken off because its
    output cannot be written. -/
inductive Ending
  | success
  | failure (message : String)
  | brokenOff (message : String)
  deriving DecidableEq, Repr

/-- What a command writes and logs, and how it ends. -/
structure Report where
  output : String
  log : List LogLine
  ending : Ending

/-- The report of a command that writes nothing and fails. -/
def Report.failed (message : String) (log : List LogLine) : Report := ⟨"", log, .failure message⟩

/-- The report of a command that writes `head` and then lines. -/
def Report.written (head : String) (lines : List Line) (log : List LogLine) : Report :=
  match render lines with
  | .ok text => ⟨head ++ text, log, .success⟩
  | .error e => ⟨head ++ renderPart lines, log, .brokenOff e.message⟩

/-- The log line of the program itself. -/
def ownLine (level : Level) (message : String) : LogLine := ⟨level, "bl", message⟩

namespace Command

/-- Reads a file as text. -/
def readText (readFile : String → Except FileError ByteArray) (file : String) :
    Except FileError String :=
  match readFile file with
  | .ok bytes => decodeText bytes
  | .error e => .error e

/-- A file is read as the text that its bytes encode. -/
theorem readText_eq_ok_iff {readFile : String → Except FileError ByteArray}
    {file source : String} :
    readText readFile file = .ok source ↔ readFile file = .ok source.toUTF8 := by
  unfold readText
  cases readFile file with
  | error e => simp
  | ok bytes => simp [decodeText_eq_ok_iff]

/-- The token's line in a listing: position, filled up to eight columns, and text. -/
def tokenLine (t : Token) : String := padRight 8 t.position.text ++ " " ++ t.text ++ "\n"

/-- The outline of a program, with the headings around it. -/
def treeSection (p : Program) : String :=
  "=== AST ===\n" ++ p.dump true ++ "\n=== PRETTY ===\n"

/-- Writes the program of a text anew, behind its outline if that is asked for. -/
def runParse (source : String) (indent : Nat) (showTree : Bool) (log : List LogLine) : Report :=
  let reading := readProgram source
  let log := log ++ reading.events.map Event.logLine
  match reading.outcome with
  | .error e => .failed e.message log
  | .ok p => .written (if showTree then treeSection p else "") (p.lines indent) log

/-- Writes the statements of a text anew. -/
def runBlock (source : String) (indent : Nat) (log : List LogLine) : Report :=
  let reading := readStatements source
  let log := log ++ reading.events.map Event.logLine
  match reading.outcome with
  | .error e => .failed e.message log
  | .ok s => .written "" (s.lines indent 0) log

/-- Reads a program, writes it anew and reads that again: both must be equal. -/
def runCheck (file source : String) : Report :=
  let reading := readProgram source
  let log := reading.events.map Event.logLine
  match reading.outcome with
  | .error e => .failed e.message log
  | .ok p =>
    match p.print defaultIndent with
    | .error e => ⟨"", log, .brokenOff e.message⟩
    | .ok text =>
      let again := readProgram text
      let log := log ++
        ownLine .debug ("pretty-printed program bytes=" ++ toString text.utf8ByteSize) ::
          again.events.map Event.logLine
      match again.outcome with
      | .error e => .failed e.message log
      | .ok q =>
        if q = p then
          ⟨file ++ ": ok (program " ++ p.name ++ ", " ++ toString p.context.size ++
            " instruction(s))\n", log, .success⟩
        else
          .failed (file ++ ": round trip changed the program\n--- printed ---\n" ++ text) log

/-- The report of a command. -/
def run (readFile : String → Except FileError ByteArray) : Command → Report
  | .parse file indent showTree =>
    let log := [ownLine .info ("Parsing " ++ file)]
    match readText readFile file with
    | .error e => .failed (Error.file e).message log
    | .ok source => runParse source (indent.getD defaultIndent) showTree log
  | .block file indent =>
    let log := [ownLine .info ("Parsing statements in " ++ file)]
    match readText readFile file with
    | .error e => .failed e.message log
    | .ok source => runBlock source (indent.getD defaultIndent) log
  | .tokens file =>
    match readText readFile file with
    | .error e => .failed e.message []
    | .ok source => ⟨String.join ((tokenize source).map tokenLine), [], .success⟩
  | .check file =>
    match readText readFile file with
    | .error e => .failed (Error.file e).message []
    | .ok source => runCheck file source

end Command

/-! ### The whole program -/

/-- What is seen of a run from outside. -/
structure Outcome where
  code : Nat
  output : String
  errors : List String
  deriving DecidableEq, Repr

/-- The name and the number of the version. -/
def versionText : String := "bl 0.1.0"

/-- What is told when the arguments cannot be understood. -/
def usageText : String :=
  "usage: bl [-v] (parse [--indent N] [--show-ast] | block [--indent N] | tokens | check) FILE"

/-- What a report shows under a filter of log lines. -/
def Report.outcome (r : Report) (filter : LogFilter) : Outcome :=
  let shown := (r.log.filter fun l => filter.shows l.level).map LogLine.text
  match r.ending with
  | .success => ⟨0, r.output, shown⟩
  | .failure message => ⟨1, r.output, shown ++ ["Error: " ++ message]⟩
  | .brokenOff message => ⟨101, r.output, shown ++ [message]⟩

/-- Exit code and output do not depend on what is logged. -/
theorem Report.outcome_eq (r : Report) (filter filter' : LogFilter) :
    (r.outcome filter).code = (r.outcome filter').code ∧
      (r.outcome filter).output = (r.outcome filter').output := by
  unfold Report.outcome
  cases r.ending <;> exact ⟨rfl, rfl⟩

/-- Everything that has been logged is shown where everything is asked for. -/
theorem Report.errors_outcome_trace (r : Report) :
    r.log.map LogLine.text <+: (r.outcome (some .trace)).errors ∧
      ((r.outcome (some .trace)).code = 0 →
        (r.outcome (some .trace)).errors = r.log.map LogLine.text) := by
  have hshown : (r.log.filter fun l => LogFilter.shows (some .trace) l.level) = r.log := by
    rw [List.filter_eq_self]
    intro l _
    show Level.shows .trace l.level = true
    cases l.level <;> rfl
  unfold Report.outcome
  simp only [hshown]
  cases r.ending with
  | success => exact ⟨List.prefix_refl _, fun _ => rfl⟩
  | failure message => exact ⟨List.prefix_append _ _, nofun⟩
  | brokenOff message => exact ⟨List.prefix_append _ _, nofun⟩

/-- Runs the program on its arguments; `filter` is what was chosen to be logged
    beside them. -/
def runArguments (filter : Option LogFilter) (readFile : String → Except FileError ByteArray)
    (args : List String) : Outcome :=
  match Request.ofArguments? args with
  | none => ⟨2, "", [usageText]⟩
  | some .version => ⟨0, versionText ++ "\n", []⟩
  | some (.run verbose command) =>
    (command.run readFile).outcome (filter.getD (.ofVerbose verbose))

/-- The outcome of arguments that ask for a command is that of its report. -/
theorem runArguments_of_request {filter : Option LogFilter}
    {readFile : String → Except FileError ByteArray} {args : List String} {verbose : Bool}
    {command : Command} (h : Request.ofArguments? args = some (.run verbose command)) :
    runArguments filter readFile args =
      (command.run readFile).outcome (filter.getD (.ofVerbose verbose)) := by
  rw [runArguments, h]

end BlockLanguage
