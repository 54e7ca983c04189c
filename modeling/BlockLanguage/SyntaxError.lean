import BlockLanguage.Token
import BlockLanguage.Vocabulary

namespace BlockLanguage

/-!
# Syntax errors

A syntax error is a cause with the position it is reported at.

* `Role` — what a name is wanted for, and `Expected` — what a rule wants next;
* `Cause` — the ways in which a list of tokens fails to be a program;
* `Cause.message`, `SyntaxError.message` — their wording.
-/

/-- The deepest nesting of branches and loops that is read. -/
def nestingLimit : Nat := 128

/-- What a name is wanted for. -/
inductive Role
  | programName
  | programClosing
  | instructionName
  | instructionClosing
  | instructionCall
  deriving DecidableEq, Repr

/-- A role in words. -/
def Role.phrase : Role → String
  | .programName => "a program name after 'PROGRAM'"
  | .programClosing => "the program name after 'END'"
  | .instructionName => "an instruction name after 'INSTRUCTION'"
  | .instructionClosing => "the instruction name after 'END'"
  | .instructionCall => "an instruction name"

/-- What a rule wants to read next. -/
inductive Expected
  | keyword (k : Keyword)
  | name (role : Role)
  | condition (after : Keyword)
  | statement
  | definition
  | endOfInput
  deriving DecidableEq, Repr

namespace Expected

/-- What is wanted, as told when no token is left. -/
def phrase : Expected → String
  | keyword k => cited k.text
  | name role => role.phrase
  | condition after => "a condition after " ++ cited after.text
  | statement => "a statement"
  | definition => "'INSTRUCTION' or 'BEGIN'"
  | endOfInput => "end of input"

/-- What is wanted, as told beside what was found: for a statement, its first
    words. -/
def choices : Expected → String
  | statement => "'IF', 'WHILE' or an instruction name"
  | e => e.phrase

/-- How a found text is told: one that is no name says what it is instead. -/
def found (e : Expected) (s : String) : String :=
  match e with
  | name _ =>
    if s = endMark then "end of input"
    else if isKeyword s then "keyword " ++ cited s
    else if isCondition s then "condition " ++ cited s
    else "invalid identifier " ++ cited s
  | _ => describeText s

end Expected

/-- What has a name at both ends. -/
inductive Section
  | program
  | instruction
  deriving DecidableEq, Repr

/-- A named section as the first word of a message. -/
def Section.title : Section → String
  | .program => "Program"
  | .instruction => "Instruction"

/-- Why tokens cannot be read. -/
inductive Cause
  | unexpected (expected : Expected) (found : String)
  | exhausted (expected : Expected)
  | afterEnd (found : String)
  | unknownCondition (found : String)
  | tooDeep
  | redefinesPrimitive (name : String)
  | nameMismatch (of : Section) (opening closing : String)
  | duplicate (name : String)
  deriving DecidableEq, Repr

/-- A cause in words. -/
def Cause.message : Cause → String
  | unexpected expected found =>
    "Expected " ++ expected.choices ++ ", found " ++ expected.found found
  | exhausted expected => "Expected " ++ expected.phrase ++ ", but the token stream is exhausted"
  | afterEnd found => "Unexpected " ++ describeText found ++ " after end of input"
  | unknownCondition found => "Unknown condition " ++ cited found
  | tooDeep => "Nesting too deep (limit " ++ toString nestingLimit ++ " levels of IF/WHILE)"
  | redefinesPrimitive name =>
    cited name ++ " is a primitive instruction and cannot be redefined"
  | nameMismatch of opening closing =>
    of.title ++ " name mismatch: expected " ++ cited opening ++ ", found " ++ cited closing
  | duplicate name => "Duplicate definition of instruction " ++ cited name

/-- A cause and the position it is reported at. -/
structure SyntaxError where
  position : Position
  cause : Cause
  deriving DecidableEq, Repr

/-- The full text of a syntax error. -/
def SyntaxError.message (e : SyntaxError) : String :=
  "Syntax error at line " ++ toString e.position.line ++ ", column " ++ toString e.position.column
    ++ ": " ++ e.cause.message

end BlockLanguage
