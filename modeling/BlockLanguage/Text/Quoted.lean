import BlockLanguage.Text.GraphemeExtend
import BlockLanguage.Text.Unprintable

namespace BlockLanguage

/-!
# Quoted texts

A text between double quotes on one line.  Quotes, backslashes and what cannot
be seen are written as escapes, all other characters as they are.

* `isHidden`, `isPlain` — the characters that cannot be seen on their own, and
  those that may stand unescaped;
* `escape` — the written form of one character, `quote` — that of a text.
-/

/-- The letters with the Unicode property `Default_Ignorable_Code_Point`: fillers
    of Hangul syllables, which leave a place empty. -/
def fillerRanges : List (Nat × Nat) := [(0x115f, 0x1160), (0x3164, 0x3164), (0xffa0, 0xffa0)]

/-- The halfwidth sound marks of Katakana.  They extend the letter before them,
    but have a place of their own beside it. -/
def soundMarkRanges : List (Nat × Nat) := [(0xff9e, 0xff9f)]

/-- Whether `c` cannot be seen on its own: it shows nothing, leaves its place
    empty, or is drawn in the place of the character before it. -/
def isHidden (c : Char) : Bool :=
  isUnprintable c || inRanges fillerRanges c || (isExtending c && !inRanges soundMarkRanges c)

/-- Whether a character may stand unescaped.  The characters of ASCII that can
    be seen are told without the tables. -/
def isPlain (c : Char) : Bool := (0x20 ≤ c.toNat && c.toNat < 0x7f) || !isHidden c

/-- The written form of a character inside a quoted text: a letter behind a
    backslash for the common ones, the code point for what cannot be seen. -/
def escape (c : Char) : List Char :=
  if c = '\x00' then ['\\', '0']
  else if c = '\t' then ['\\', 't']
  else if c = '\r' then ['\\', 'r']
  else if c = '\n' then ['\\', 'n']
  else if c = '"' then ['\\', '"']
  else if c = '\\' then ['\\', '\\']
  else if isPlain c then [c]
  else '\\' :: 'u' :: '\x7b' :: Nat.toDigits 16 c.toNat ++ ['\x7d']

/-- The text `s` between double quotes. -/
def quote (s : String) : String :=
  String.ofList ('"' :: s.toList.flatMap escape ++ ['"'])

-- Apostrophes and letters stay, what is between the other escapes is a code point.
example : quote "it's \"é\"\\\n\x7f" = "\"it's \\\"é\\\"\\\\\\n\\u\x7b7f\x7d\"" := by decide +kernel

-- A filler is escaped, a halfwidth sound mark is not, any other extending character is.
example : quote "\u115f\uff9f\u0301" = "\"\\u\x7b115f\x7d\uff9f\\u\x7b301\x7d\"" := by
  decide +kernel

end BlockLanguage
