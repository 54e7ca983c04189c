import BlockLanguage.Condition

namespace BlockLanguage

/-!
# The vocabulary of the language

Which texts are keywords, primitive instructions and identifiers.

* `Keyword` — the ten reserved words, each with its `Keyword.text`;
* `isKeyword`, `isPrimitive` — membership in the two fixed lists;
* `isWordChar` — the characters that a word is made of;
* `isIdentifier` — the words that can name a program or an instruction.
-/

/-- The reserved words. -/
inductive Keyword
  | program
  | is
  | begin
  | end_
  | instruction
  | if_
  | then_
  | else_
  | while_
  | do_
  deriving DecidableEq, Repr

namespace Keyword

/-- All reserved words. -/
def all : List Keyword :=
  [program, is, begin, end_, instruction, if_, then_, else_, while_, do_]

/-- The spelling of a reserved word. -/
def text : Keyword → String
  | program => "PROGRAM"
  | is => "IS"
  | begin => "BEGIN"
  | end_ => "END"
  | instruction => "INSTRUCTION"
  | if_ => "IF"
  | then_ => "THEN"
  | else_ => "ELSE"
  | while_ => "WHILE"
  | do_ => "DO"

/-- No reserved word is missing from the list of all. -/
theorem mem_all (k : Keyword) : k ∈ all := by cases k <;> decide

/-- Different reserved words are spelled differently. -/
theorem text_injective {k l : Keyword} (h : k.text = l.text) : k = l := by
  revert h; cases k <;> cases l <;> decide

theorem text_inj {k l : Keyword} : k.text = l.text ↔ k = l := ⟨text_injective, congrArg text⟩

end Keyword

/-- Whether `s` is a reserved word. -/
def isKeyword (s : String) : Bool := (Keyword.all.map Keyword.text).contains s

/-- A text is reserved exactly when it spells a reserved word. -/
theorem isKeyword_iff {s : String} : isKeyword s = true ↔ ∃ k : Keyword, k.text = s := by
  simp [isKeyword, Keyword.mem_all]

/-- The instructions that every robot knows. -/
def primitives : List String := ["move", "turnleft", "turnright", "infect", "skip"]

/-- Whether `s` names an instruction that every robot knows. -/
def isPrimitive (s : String) : Bool := primitives.contains s

/-- The characters of a word: letters and digits of ASCII, and the hyphen. -/
def isWordChar (c : Char) : Bool := c.isAlphanum || c == '-'

/-- Whether `s` can name a program or an instruction: a letter, then word
    characters, and neither reserved nor a condition. -/
def isIdentifier (s : String) : Bool :=
  match s.toList with
  | [] => false
  | c :: cs => c.isAlpha && cs.all isWordChar && !isKeyword s && !isCondition s

end BlockLanguage
