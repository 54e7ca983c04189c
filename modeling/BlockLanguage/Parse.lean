import BlockLanguage.Grammar.Program
import BlockLanguage.Token.Scan

namespace BlockLanguage

/-!
# Reading texts

* `parse` — the program that a text holds;
* `parseStatements` — the statements of a text that holds nothing else;
* `readProgram`, `readStatements` — the same, with the events on the way.
-/

/-- Reads the program that a text holds. -/
def readProgram (source : String) : Reading Error Program := parseProgram (tokenize source)

/-- Reads a text that holds nothing but statements, as a block. -/
def readStatements (source : String) : Reading Error Statement :=
  Rule.run
    (do
      let body ← Rule.block nestingLimit
      Rule.endOfInput
      return .block body)
    (tokenize source)

/-- The program that a text holds. -/
def parse (source : String) : Except Error Program := (readProgram source).outcome

/-- The statements of a text that holds nothing else, as a block. -/
def parseStatements (source : String) : Except Error Statement := (readStatements source).outcome

/-- The program that a file's bytes hold. -/
def parseBytes (bytes : ByteArray) : Except Error Program :=
  match decodeText bytes with
  | .ok source => parse source
  | .error e => .error (.file e)

example : (parse "PROGRAM P IS BEGIN move END P").toOption =
    some ⟨"P", .empty, .block [.call "move"]⟩ := by decide +kernel

end BlockLanguage
