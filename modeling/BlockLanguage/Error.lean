import BlockLanguage.FileError
import BlockLanguage.SyntaxError
import BlockLanguage.Violation

namespace BlockLanguage

/-!
# Errors

Everything that can stop an operation of the library.

* `Error` — a text that is no program, a check that failed, or an unreadable file;
* `Error.message` — the full text.
-/

/-- What stops an operation. -/
inductive Error
  | malformed (e : SyntaxError)
  | violation (v : Violation)
  | file (e : FileError)
  deriving DecidableEq, Repr

/-- The full text of an error. -/
def Error.message : Error → String
  | malformed e => e.message
  | violation v => v.message
  | file e => "IO error: " ++ e.message

end BlockLanguage
