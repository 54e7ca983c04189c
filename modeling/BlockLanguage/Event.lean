import BlockLanguage.Statement

namespace BlockLanguage

/-!
# Events of a reading

* `Event` — what is complete when a rule of the grammar succeeds.
-/

/-- A part of a text that has been read: a statement, a definition with the
    number of its statements, or a program with the number of its definitions. -/
inductive Event
  | statement (kind : Kind)
  | definition (name : String) (statements : Nat)
  | program (name : String) (definitions : Nat)
  deriving DecidableEq, Repr

end BlockLanguage
