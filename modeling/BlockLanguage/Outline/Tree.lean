import BlockLanguage.Outline
import BlockLanguage.Program
import BlockLanguage.Text.Quoted

namespace BlockLanguage

/-!
# Outlines of statements and programs

* `Statement.outline`, `Program.outline` — a tree as nested data;
* `Statement.dump`, `Program.dump` — its text, on one line or expanded.
-/

/-- The text of an outline, on one line or with one item a line. -/
def Outline.text (expanded : Bool) (o : Outline) : String :=
  if expanded then o.expanded 0 else o.plain

namespace Statement

mutual

/-- A statement as nested data. -/
def outline : Statement → Outline
  | .block children => .tuple Kind.block.name [.list (outlines children)]
  | .ifThen c body =>
    .record Kind.ifThen.name [("condition", .leaf c.name), ("then_block", .list (outlines body))]
  | .ifElse c thenBody elseBody =>
    .record Kind.ifElse.name
      [("condition", .leaf c.name), ("then_block", .list (outlines thenBody)),
       ("else_block", .list (outlines elseBody))]
  | .whileDo c body =>
    .record Kind.whileDo.name [("condition", .leaf c.name), ("body", .list (outlines body))]
  | .call name => .record Kind.call.name [("instruction", .leaf (quote name))]

/-- Statements as nested data, one by one. -/
def outlines : List Statement → List Outline
  | [] => []
  | s :: ss => outline s :: outlines ss

end

/-- The text of a statement's outline. -/
def dump (expanded : Bool) (s : Statement) : String := s.outline.text expanded

end Statement

namespace Program

/-- A program as nested data. -/
def outline (p : Program) : Outline :=
  .record "Program"
    [("name", .leaf (quote p.name)),
     ("context", .map (p.context.entries.map fun e => (quote e.1, e.2.outline))),
     ("body", p.body.outline)]

/-- The text of a program's outline. -/
def dump (expanded : Bool) (p : Program) : String := p.outline.text expanded

end Program

example : (Statement.block [.call "a"]).dump false =
    "Block([Call \x7b instruction: \"a\" \x7d])" := by decide +kernel

-- Brackets without items stay on one line.
example : (Statement.block []).dump true = "Block(\n    [],\n)" := by decide +kernel

end BlockLanguage
