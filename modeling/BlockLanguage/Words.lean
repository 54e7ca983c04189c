import BlockLanguage.Program

namespace BlockLanguage

/-!
# The words of statements and programs

What is written for a tree, leaving layout aside, is a list of words.  A block
has no words of its own.

* `Statement.words`, `Statement.wordsOf` — the words of a statement and of a list of them;
* `Program.definitionWords`, `Program.words` — those of a definition and of a program.
-/

namespace Statement

mutual

/-- The words that write a statement. -/
def words : Statement → List String
  | .block children => wordsOf children
  | .ifThen c body =>
    [Keyword.if_.text, c.text, Keyword.then_.text] ++ wordsOf body ++
      [Keyword.end_.text, Keyword.if_.text]
  | .ifElse c thenBody elseBody =>
    [Keyword.if_.text, c.text, Keyword.then_.text] ++ wordsOf thenBody ++
      [Keyword.else_.text] ++ wordsOf elseBody ++ [Keyword.end_.text, Keyword.if_.text]
  | .whileDo c body =>
    [Keyword.while_.text, c.text, Keyword.do_.text] ++ wordsOf body ++
      [Keyword.end_.text, Keyword.while_.text]
  | .call name => [name]

/-- The words that write statements one after the other. -/
def wordsOf : List Statement → List String
  | [] => []
  | s :: ss => words s ++ wordsOf ss

end

/-- The words of a list are those of its statements, in order. -/
theorem wordsOf_eq (ss : List Statement) : wordsOf ss = ss.flatMap words := by
  induction ss with
  | nil => rfl
  | cons s ss ih => simp [wordsOf, ih]

@[simp] theorem wordsOf_append (ss ts : List Statement) :
    wordsOf (ss ++ ts) = wordsOf ss ++ wordsOf ts := by
  simp [wordsOf_eq]

end Statement

namespace Program

/-- The words that write a definition. -/
def definitionWords (e : String × Statement) : List String :=
  [Keyword.instruction.text, e.1, Keyword.is.text] ++ e.2.words ++ [Keyword.end_.text, e.1]

/-- The words that write a program, its definitions in ascending order of their
    names. -/
def words (p : Program) : List String :=
  [Keyword.program.text, p.name, Keyword.is.text] ++ p.context.entries.flatMap definitionWords ++
    [Keyword.begin.text] ++ p.body.words ++ [Keyword.end_.text, p.name]

end Program

end BlockLanguage
