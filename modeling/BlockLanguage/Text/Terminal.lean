namespace BlockLanguage

/-!
# Text for a terminal

Some control characters make a terminal ring, move, erase or change colours.  In
text that is shown to a reader they are written as escapes, so that it cannot
command the terminal.

* `isCommanding` — the characters that a terminal acts on;
* `escapeControl` — the written form of one character, `escapeControls` — that of
  a text.
-/

/-- Whether `c` is a control character of ASCII that a terminal acts on: bell,
    backspace, form feed, escape or delete.  Tabs and ends of lines belong to the
    text. -/
def isCommanding (c : Char) : Bool :=
  c = '\x07' || c = '\x08' || c = '\x0c' || c = '\x1b' || c = '\x7f'

/-- Whether `c` is one of the 32 control characters behind ASCII. -/
def isHighControl (c : Char) : Bool := 0x80 ≤ c.toNat && c.toNat ≤ 0x9f

/-- The written form of a character: two hexadecimal digits for a control
    character of ASCII, the code point for one behind it. -/
def escapeControl (c : Char) : List Char :=
  if isCommanding c then
    ['\\', 'x', Nat.digitChar (c.toNat / 16), Nat.digitChar (c.toNat % 16)]
  else if isHighControl c then '\\' :: 'u' :: '\x7b' :: Nat.toDigits 16 c.toNat ++ ['\x7d']
  else [c]

/-- The text `s` without characters that a terminal acts on. -/
def escapeControls (s : String) : String := String.ofList (s.toList.flatMap escapeControl)

-- A tab stays.
example : escapeControls "a\tb\x1b[1m\x07\u0085" = "a\tb\\x1b[1m\\x07\\u\x7b85\x7d" := by
  decide +kernel

end BlockLanguage
