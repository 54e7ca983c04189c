namespace BlockLanguage

/-!
# Spaces

* `spaces` — a text of spaces, `padRight` — a text filled up with them.
-/

/-- A text of `n` spaces. -/
def spaces (n : Nat) : String := String.ofList (List.replicate n ' ')

@[simp] theorem toList_spaces (n : Nat) : (spaces n).toList = List.replicate n ' ' :=
  String.toList_ofList

/-- The text `s`, filled up with spaces to `width` characters. -/
def padRight (width : Nat) (s : String) : String := s ++ spaces (width - s.length)

end BlockLanguage
