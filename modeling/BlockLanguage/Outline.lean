import BlockLanguage.Text.Spaces

namespace BlockLanguage

/-!
# Outlines

An outline shows nested data: leaves, labelled items, and items between
brackets.

* `Outline` — the data, `Brackets` — what items are put between;
* `Outline.plain` — the outline on one line;
* `Outline.expanded` — the outline with one item a line, four more spaces a level.
-/

/-- What items are put between, and whether spaces keep them apart from it when
    all stands on one line. -/
structure Brackets where
  opening : String
  closing : String
  spaced : Bool
  deriving DecidableEq, Repr

/-- Nested data as it is shown. -/
inductive Outline
  | leaf (text : String)
  | labelled (label : String) (item : Outline)
  | group (brackets : Brackets) (items : List Outline)

namespace Outline

/-! ### Building -/

/-- A value with a name and named fields. -/
def record (name : String) (fields : List (String × Outline)) : Outline :=
  group ⟨name ++ " \x7b", "\x7d", true⟩ (fields.map fun f => labelled f.1 f.2)

/-- A value with a name and fields in a fixed order. -/
def tuple (name : String) (fields : List Outline) : Outline :=
  group ⟨name ++ "(", ")", false⟩ fields

/-- A list of values. -/
def list (items : List Outline) : Outline := group ⟨"[", "]", false⟩ items

/-- Values under written keys. -/
def map (entries : List (String × Outline)) : Outline :=
  group ⟨"\x7b", "\x7d", false⟩ (entries.map fun e => labelled e.1 e.2)

/-! ### On one line -/

mutual

/-- The outline on one line. -/
def plain : Outline → String
  | leaf text => text
  | labelled label item => label ++ ": " ++ plain item
  | group b [] => b.opening ++ b.closing
  | group b (item :: items) =>
    let margin := if b.spaced then " " else ""
    b.opening ++ margin ++ (plain item ++ plainAfter items) ++ margin ++ b.closing

/-- Further items on the same line. -/
def plainAfter : List Outline → String
  | [] => ""
  | item :: items => ", " ++ plain item ++ plainAfter items

end

/-! ### One item a line -/

/-- A new line, indented for items at `level`. -/
def newLine (level : Nat) : String := "\n" ++ spaces (4 * level)

mutual

/-- The outline with one item a line, when it begins at `level`. -/
def expanded (level : Nat) : Outline → String
  | leaf text => text
  | labelled label item => label ++ ": " ++ expanded level item
  | group b [] => b.opening ++ b.closing
  | group b (item :: items) =>
    b.opening ++ (newLine (level + 1) ++ expanded (level + 1) item ++ ","
      ++ expandedAfter (level + 1) items) ++ newLine level ++ b.closing

/-- Further items on lines of their own. -/
def expandedAfter (level : Nat) : List Outline → String
  | [] => ""
  | item :: items =>
    newLine level ++ expanded level item ++ "," ++ expandedAfter level items

end

end Outline

end BlockLanguage
