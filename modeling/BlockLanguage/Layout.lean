import BlockLanguage.Text.Spaces
import BlockLanguage.Words

namespace BlockLanguage

/-!
# Layout

Statements and programs are written as indented lines of words.

* `Line` — an indented line, `Line.text` — the characters of one;
* `Statement.lines`, `Program.lines` — the lines of a tree, for any indent;
* `render` — the text of lines, none of which may be indented too far;
* `Statement.print`, `Program.print` — lines and text in one step;
* `Statement.words_lines`, `Program.words_lines` — the lines hold the words of
  the tree, in their order.
-/

/-- A line: how far it is indented, and its words. -/
structure Line where
  indent : Nat
  words : List String
  deriving DecidableEq, Repr

/-- The widest indent that a line can be written with. -/
def widestIndent : Nat := 65535

namespace Line

/-- Whether the line can be written. -/
def fits (l : Line) : Bool := l.indent ≤ widestIndent

/-- The characters of a line, the newline included: the indent, then the words
    with a space between any two. -/
def text (l : Line) : String := spaces l.indent ++ " ".intercalate l.words ++ "\n"

end Line

/-- Why lines cannot be written. -/
inductive LayoutError
  | indentTooWide
  deriving DecidableEq, Repr

/-- A layout error in words. -/
def LayoutError.message : LayoutError → String
  | indentTooWide => "Formatting argument out of range"

/-- The characters of lines, one after the other. -/
def joinLines (ls : List Line) : String := String.join (ls.map Line.text)

/-- The text of lines.  One that is indented too far makes it fail. -/
def render (ls : List Line) : Except LayoutError String :=
  if ls.all Line.fits then .ok (joinLines ls) else .error .indentTooWide

/-- The part of the text that stands before the first line indented too far. -/
def renderPart (ls : List Line) : String := joinLines (ls.takeWhile Line.fits)

/-- The indent of one level, where none is asked for. -/
def defaultIndent : Nat := 2

/-! ### Statements -/

namespace Statement

mutual

/-- The lines of a statement that starts `offset` spaces from the margin, with
    `indent` more spaces at each level.  A block is no level of its own. -/
def lines (indent offset : Nat) : Statement → List Line
  | .block children => linesOf indent offset children
  | .ifThen c body =>
    [⟨offset, [Keyword.if_.text, c.text, Keyword.then_.text]⟩] ++
      linesOf indent (offset + indent) body ++
      [⟨offset, [Keyword.end_.text, Keyword.if_.text]⟩]
  | .ifElse c thenBody elseBody =>
    [⟨offset, [Keyword.if_.text, c.text, Keyword.then_.text]⟩] ++
      linesOf indent (offset + indent) thenBody ++
      [⟨offset, [Keyword.else_.text]⟩] ++
      linesOf indent (offset + indent) elseBody ++
      [⟨offset, [Keyword.end_.text, Keyword.if_.text]⟩]
  | .whileDo c body =>
    [⟨offset, [Keyword.while_.text, c.text, Keyword.do_.text]⟩] ++
      linesOf indent (offset + indent) body ++
      [⟨offset, [Keyword.end_.text, Keyword.while_.text]⟩]
  | .call name => [⟨offset, [name]⟩]

/-- The lines of statements that follow each other. -/
def linesOf (indent offset : Nat) : List Statement → List Line
  | [] => []
  | s :: ss => lines indent offset s ++ linesOf indent offset ss

end

/-- **Lines hold the words.**  The lines of a statement hold its words in their
    order, whatever the layout. -/
theorem words_lines (indent offset : Nat) (s : Statement) :
    (s.lines indent offset).flatMap Line.words = s.words := by
  suffices h : (∀ (s : Statement) offset, (s.lines indent offset).flatMap Line.words = s.words) ∧
      ∀ (ss : List Statement) offset, (linesOf indent offset ss).flatMap Line.words = wordsOf ss
    from h.1 s offset
  refine induction ?_ ?_ ?_ ?_ ?_ ?_ ?_
  · intro cs ih offset; simp [lines, words, ih]
  · intro c b ih offset; simp [lines, words, ih]
  · intro c a b iha ihb offset; simp [lines, words, iha, ihb]
  · intro c b ih offset; simp [lines, words, ih]
  · intro n offset; simp [lines, words]
  · intro offset; simp [linesOf, wordsOf]
  · intro s ss ihs ihss offset; simp [linesOf, wordsOf, ihs, ihss]

/-- The text of a statement that starts `offset` spaces from the margin. -/
def print (indent offset : Nat) (s : Statement) : Except LayoutError String :=
  render (s.lines indent offset)

end Statement

/-! ### Programs -/

namespace Program

/-- The lines of a definition, and an empty one behind them. -/
def definitionLines (indent : Nat) (e : String × Statement) : List Line :=
  [⟨indent, [Keyword.instruction.text, e.1, Keyword.is.text]⟩] ++
    e.2.lines indent (indent + indent) ++
    [⟨indent, [Keyword.end_.text, e.1]⟩, ⟨0, []⟩]

/-- The lines of a program: its head, its definitions in ascending order of
    their names, and its body. -/
def lines (indent : Nat) (p : Program) : List Line :=
  [⟨0, [Keyword.program.text, p.name, Keyword.is.text]⟩, ⟨0, []⟩] ++
    p.context.entries.flatMap (definitionLines indent) ++
    [⟨0, [Keyword.begin.text]⟩] ++
    p.body.lines indent indent ++
    [⟨0, [Keyword.end_.text, p.name]⟩]

/-- The lines of a definition hold its words in their order. -/
theorem words_definitionLines (indent : Nat) (e : String × Statement) :
    (definitionLines indent e).flatMap Line.words = definitionWords e := by
  simp [definitionLines, definitionWords, Statement.words_lines]

/-- **Lines hold the words.**  The lines of a program hold its words in their
    order, whatever the indent. -/
theorem words_lines (indent : Nat) (p : Program) :
    (p.lines indent).flatMap Line.words = p.words := by
  simp [lines, words, Statement.words_lines, List.flatMap_assoc, words_definitionLines]

/-- The text of a program. -/
def print (indent : Nat) (p : Program) : Except LayoutError String := render (p.lines indent)

end Program

example : ((Statement.whileDo .random [.call "move"]).print 2 1).toOption =
    some " WHILE random DO\n   move\n END WHILE\n" := by decide +kernel

-- A width that no line uses does no harm.
example : (Statement.empty.print 2 70000).toOption = some "" := by decide +kernel

end BlockLanguage
