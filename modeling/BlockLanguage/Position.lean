namespace BlockLanguage

/-!
# Positions in a text

Lines and columns both count from 1, and a column counts characters.

* `Position.advance` — where a text goes on after one character;
* `Position.after` — where it goes on after a run of characters;
* `Position.text` — the written form, `line:column`.
-/

/-- A place in a text: line and column, both counted from 1. -/
structure Position where
  line : Nat
  column : Nat
  deriving DecidableEq, Repr

namespace Position

/-- Where every text begins. -/
def start : Position := ⟨1, 1⟩

/-- The place after the character `c` read at `p`: a newline opens the next
    line, any other character takes one column. -/
def advance (p : Position) (c : Char) : Position :=
  if c = '\n' then ⟨p.line + 1, 1⟩ else ⟨p.line, p.column + 1⟩

/-- The place after the characters `cs` read from `p` on. -/
def after (p : Position) (cs : List Char) : Position := cs.foldl advance p

/-- The written form, `line:column`. -/
def text (p : Position) : String := toString p.line ++ ":" ++ toString p.column

@[simp] theorem after_nil (p : Position) : p.after [] = p := rfl

@[simp] theorem after_cons (p : Position) (c : Char) (cs : List Char) :
    p.after (c :: cs) = (p.advance c).after cs := rfl

/-- Reading two runs one after the other is reading their concatenation. -/
theorem after_append (p : Position) (as bs : List Char) :
    p.after (as ++ bs) = (p.after as).after bs := List.foldl_append

end Position

end BlockLanguage
