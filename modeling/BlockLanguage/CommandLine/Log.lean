import BlockLanguage.Event
import BlockLanguage.Text.Terminal

namespace BlockLanguage

/-!
# Log lines

* `Level` — how important a line is, `Level.shows` — what a chosen level lets through;
* `LogLine` — a line with its level and where it comes from;
* `Event.logLine` — the line that tells an event of a reading.
-/

/-- How important a log line is. -/
inductive Level
  | trace
  | debug
  | info
  | warn
  | error
  deriving DecidableEq, Repr

namespace Level

/-- The place of a level in the order of importance. -/
def rank : Level → Nat
  | trace => 0
  | debug => 1
  | info => 2
  | warn => 3
  | error => 4

/-- How a level stands at the beginning of a line. -/
def title : Level → String
  | trace => "TRACE"
  | debug => "DEBUG"
  | info => "INFO"
  | warn => "WARN"
  | error => "ERROR"

/-- Whether lines of the level `l` are shown when `least` is asked for. -/
def shows (least l : Level) : Bool := least.rank ≤ l.rank

end Level

/-- What is to be logged: everything from a level on, or nothing. -/
abbrev LogFilter := Option Level

namespace LogFilter

/-- The filter that a word names. -/
def ofText? (s : String) : Option LogFilter :=
  if s = "trace" then some (some .trace)
  else if s = "debug" then some (some .debug)
  else if s = "info" then some (some .info)
  else if s = "warn" then some (some .warn)
  else if s = "error" then some (some .error)
  else if s = "off" then some none
  else none

/-- The filter where none is chosen. -/
def ofVerbose (verbose : Bool) : LogFilter := some (if verbose then .debug else .warn)

/-- Whether the filter lets lines of the level `l` through. -/
def shows (f : LogFilter) (l : Level) : Bool :=
  match f with
  | some least => least.shows l
  | none => false

end LogFilter

/-- A log line: its level, where it comes from, and what it says. -/
structure LogLine where
  level : Level
  source : String
  message : String
  deriving DecidableEq, Repr

/-- The characters of a log line.  A message may hold a file name, and so any
    character, which must not reach the terminal unescaped. -/
def LogLine.text (l : LogLine) : String :=
  l.level.title ++ " " ++ l.source ++ ": " ++ escapeControls l.message

/-- The line that tells an event of a reading. -/
def Event.logLine : Event → LogLine
  | .statement kind =>
    ⟨.trace, "bl_lang::parser::statement", "parsed statement kind=" ++ kind.name⟩
  | .definition name statements =>
    ⟨.debug, "bl_lang::parser::program",
      "parsed instruction instruction=" ++ name ++ " statements=" ++ toString statements⟩
  | .program name definitions =>
    ⟨.debug, "bl_lang::parser::program",
      "parsed program program=" ++ name ++ " instructions=" ++ toString definitions⟩

end BlockLanguage
