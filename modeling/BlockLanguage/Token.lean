import BlockLanguage.Position

namespace BlockLanguage

/-!
# Tokens

A token is a text with the position of its first character.  The end of a text
is a token too, told from the others by its text alone.

* `Token.isEnd`, `Token.describe` — the end mark, and how messages name a token;
* `Token.ofWords` — the tokens of words written on one line, a blank after each;
* `Tokens` — tokens waiting to be read, with the operations of a queue.
-/

/-- A piece of a text, and where it stands. -/
structure Token where
  text : String
  position : Position
  deriving DecidableEq, Repr

/-- The text of the token that stands for the end of a text. -/
def endMark : String := "### END OF INPUT ###"

/-- A text between apostrophes, as messages cite it. -/
def cited (s : String) : String := "'" ++ s ++ "'"

/-- How messages name a token with the text `s`. -/
def describeText (s : String) : String := if s = endMark then "end of input" else cited s

namespace Token

/-- Whether `t` stands for the end of a text. -/
def isEnd (t : Token) : Bool := t.text == endMark

/-- The end of a text, reached at `p`. -/
def atEnd (p : Position) : Token := ⟨endMark, p⟩

/-- The tokens of `words`, written from column `column` of the first line on
    with one blank after each, and the end mark behind them. -/
def ofWordsFrom (column : Nat) : List String → List Token
  | [] => [atEnd ⟨1, column⟩]
  | w :: ws => ⟨w, ⟨1, column⟩⟩ :: ofWordsFrom (column + w.length + 1) ws

/-- The tokens of `words` written on one line, with one blank after each, and
    the end mark behind them. -/
def ofWords (words : List String) : List Token := ofWordsFrom 1 words

-- An empty word takes no column, but the blank behind it does.
example : ofWords ["IF", "", "x"] =
    [⟨"IF", ⟨1, 1⟩⟩, ⟨"", ⟨1, 4⟩⟩, ⟨"x", ⟨1, 5⟩⟩, atEnd ⟨1, 7⟩] := by decide

end Token

/-- Tokens waiting to be read, the next one first. -/
abbrev Tokens := List Token

namespace Tokens

/-- The next token. -/
def front? (ts : Tokens) : Option Token := ts.head?

/-- The next token and what is left after it is taken. -/
def dequeue (ts : Tokens) : Option Token × Tokens := (ts.head?, ts.tail)

/-- The queue with `t` behind all others. -/
def enqueue (ts : Tokens) (t : Token) : Tokens := ts ++ [t]

/-- The place of the next token; the start of a text when none is left. -/
def frontPosition (ts : Tokens) : Position := (ts.head?.map Token.position).getD Position.start

/-- Whether the next token has the text `s`; nothing when none is left. -/
def frontIs? (ts : Tokens) (s : String) : Option Bool := ts.head?.map fun t => t.text == s

/-- Whether the next token is the end mark; nothing when none is left. -/
def frontIsEnd? (ts : Tokens) : Option Bool := ts.head?.map Token.isEnd

end Tokens

end BlockLanguage
