import BlockLanguage.Text.Quoted
import Mathlib.Data.List.Basic

namespace BlockLanguage

/-!
# Reading quoted texts

A quoted text ends with the first quote that no escape holds, and its escapes can be read one
by one.  So a quoted text tells what it quotes, and where it ends.

* `ToldApart` — values that are told apart by their texts, whatever stands behind these;
* `toldApart_of_prefix` — how this is seen from texts that do not begin each other;
* `hexValue`, `readLetter?`, `readEscape?` — the readers of digits and of escapes,
  `hexValue_toDigits`, `readEscape?_escape` — what they read;
* `toldApart_quote` — quoted texts.
-/

/-- The values `a` and `b` are told apart by their texts, whatever stands behind these. -/
def ToldApart {α : Type} (text : α → List Char) (a b : α) : Prop :=
  ∀ r r', text a ++ r = text b ++ r' → a = b ∧ r = r'

/-- A value is known by its own text. -/
theorem toldApart_self {α : Type} (text : α → List Char) (a : α) : ToldApart text a a :=
  fun _ _ h => ⟨rfl, List.append_cancel_left h⟩

/-- Of two texts in front of the same characters one begins the other. -/
theorem isPrefix_of_append_eq {u v r r' : List Char} (h : u ++ r = v ++ r') : u <+: v ∨ v <+: u :=
  List.prefix_or_prefix_of_prefix (List.prefix_append u r) (h ▸ List.prefix_append v r')

/-- Values are told apart if no text of one begins that of the other. -/
theorem toldApart_of_prefix {α : Type} {text : α → List Char} {a b : α}
    (h : text a <+: text b → a = b) (h' : text b <+: text a → a = b) : ToldApart text a b := by
  intro r r' heq
  have hab : a = b := (isPrefix_of_append_eq heq).elim h h'
  subst hab
  exact ⟨rfl, List.append_cancel_left heq⟩

/-! ### Escapes -/

/-- The number that a hexadecimal digit writes. -/
def hexDigitValue (c : Char) : Nat :=
  if c.isDigit then c.toNat - '0'.toNat else c.toNat - 'a'.toNat + 10

/-- The number that hexadecimal digits write. -/
def hexValue (digits : List Char) : Nat := digits.foldl (fun n d => 16 * n + hexDigitValue d) 0

/-- **Hexadecimal digits** write the number that they come from, and none is a closing brace. -/
theorem hexValue_toDigits (n : Nat) :
    hexValue (Nat.toDigits 16 n) = n ∧ ∀ d ∈ Nat.toDigits 16 n, d ≠ '\x7d' := by
  have hdigit : ∀ m < 16, hexDigitValue m.digitChar = m ∧ m.digitChar ≠ '\x7d' := by decide
  -- The last digit is what is left over, the others write the quotient.
  induction n using Nat.strongRecOn with
  | ind n ih =>
    rw [Nat.toDigits_eq_if (by decide)]
    by_cases hn : n < 16
    · rw [if_pos hn]
      obtain ⟨hvalue, hbrace⟩ := hdigit n hn
      refine ⟨?_, by simp [hbrace]⟩
      show 16 * 0 + hexDigitValue n.digitChar = n
      rw [hvalue]
      omega
    · rw [if_neg hn]
      obtain ⟨hvalue, hbrace⟩ := hdigit (n % 16) (Nat.mod_lt _ (by decide))
      obtain ⟨hothers, hbraces⟩ := ih (n / 16) (by omega)
      refine ⟨?_, ?_⟩
      · unfold hexValue at hothers ⊢
        rw [List.foldl_append, hothers]
        show 16 * (n / 16) + hexDigitValue (n % 16).digitChar = n
        rw [hvalue]
        omega
      · intro d hd
        rcases List.mem_append.1 hd with hd | hd
        · exact hbraces d hd
        · rwa [List.mem_singleton.1 hd]

/-- The letters behind a backslash, with the characters that they stand for. -/
def escapeLetters : List (Char × Char) :=
  [('0', '\x00'), ('t', '\t'), ('r', '\r'), ('n', '\n'), ('"', '"'), ('\\', '\\')]

/-- The character that the escape behind a backslash stands for, and what stands behind it. -/
def readLetter? : List Char → Option (Char × List Char)
  | [] => none
  | k :: cs =>
    if k = 'u' then
      -- A code point between braces.
      let digits := cs.tail.takeWhile (· != '\x7d')
      some (Char.ofNat (hexValue digits), (cs.tail.dropWhile (· != '\x7d')).tail)
    else (escapeLetters.lookup k).map fun c => (c, cs)

/-- The character that stands written in front, and what stands behind it.  A quote ends the
    text, so it writes none. -/
def readEscape? : List Char → Option (Char × List Char)
  | [] => none
  | c :: cs =>
    if c = '"' then none
    else if c = '\\' then readLetter? cs
    else some (c, cs)

/-- A code point is read from its digits. -/
theorem readLetter?_codePoint (n : Nat) (r : List Char) :
    readLetter? ('u' :: '\x7b' :: (Nat.toDigits 16 n ++ '\x7d' :: r)) = some (Char.ofNat n, r) := by
  obtain ⟨hvalue, hbrace⟩ := hexValue_toDigits n
  have hdigits : ∀ d ∈ Nat.toDigits 16 n, (d != '\x7d') = true := by simpa using hbrace
  have htake : ('\x7d' :: r).takeWhile (· != '\x7d') = [] := rfl
  have hdrop : ('\x7d' :: r).dropWhile (· != '\x7d') = '\x7d' :: r := rfl
  show some (Char.ofNat (hexValue ((Nat.toDigits 16 n ++ '\x7d' :: r).takeWhile _)),
    ((Nat.toDigits 16 n ++ '\x7d' :: r).dropWhile _).tail) = some (Char.ofNat n, r)
  rw [List.takeWhile_append_of_pos hdigits, List.dropWhile_append_of_pos hdigits, htake, hdrop,
    List.append_nil, hvalue, List.tail_cons]

/-- **Escapes** are read as the characters that they stand for. -/
theorem readEscape?_escape (c : Char) (r : List Char) :
    readEscape? (escape c ++ r) = some (c, r) := by
  unfold escape
  split
  · next h => subst h; rfl
  split
  · next h => subst h; rfl
  split
  · next h => subst h; rfl
  split
  · next h => subst h; rfl
  split
  · next h => subst h; rfl
  split
  · next h => subst h; rfl
  next hquote hslash =>
    split
    · -- A character that stands for itself is neither a quote nor a backslash.
      show (if c = '"' then none else if c = '\\' then readLetter? r else some (c, r)) = some (c, r)
      rw [if_neg hquote, if_neg hslash]
    · have hchars : '\\' :: 'u' :: '\x7b' :: Nat.toDigits 16 c.toNat ++ ['\x7d'] ++ r =
          '\\' :: 'u' :: '\x7b' :: (Nat.toDigits 16 c.toNat ++ '\x7d' :: r) := by simp
      rw [hchars]
      show readLetter? ('u' :: '\x7b' :: (Nat.toDigits 16 c.toNat ++ '\x7d' :: r)) = some (c, r)
      rw [readLetter?_codePoint, Char.ofNat_toNat]

/-! ### Quoted texts -/

/-- What is quoted ends with the first quote that no escape holds. -/
theorem quoted_append_inj {cs ds r r' : List Char}
    (h : cs.flatMap escape ++ '"' :: r = ds.flatMap escape ++ '"' :: r') : cs = ds ∧ r = r' := by
  -- A quote in front of what is left ends the text, and no escape is read there.
  have hend : ∀ (d : Char) (ds r r' : List Char),
      '"' :: r ≠ (d :: ds).flatMap escape ++ '"' :: r' := by
    intro d ds r r' heq
    have hread : readEscape? ('"' :: r) = none := rfl
    rw [heq, List.flatMap_cons, List.append_assoc, readEscape?_escape] at hread
    cases hread
  induction cs generalizing ds with
  | nil =>
    cases ds with
    | nil => exact ⟨rfl, List.tail_eq_of_cons_eq h⟩
    | cons d ds => exact absurd h (hend d ds r r')
  | cons c cs ih =>
    cases ds with
    | nil => exact absurd h.symm (hend c cs r' r)
    | cons d ds =>
      simp only [List.flatMap_cons, List.append_assoc] at h
      have hread := congrArg readEscape? h
      rw [readEscape?_escape, readEscape?_escape] at hread
      obtain ⟨rfl, hrest⟩ := Prod.mk.inj (Option.some.inj hread)
      obtain ⟨rfl, hr⟩ := ih hrest
      exact ⟨rfl, hr⟩

/-- The characters of a quoted text. -/
theorem toList_quote (s : String) :
    (quote s).toList = '"' :: (s.toList.flatMap escape ++ ['"']) := by
  rw [quote, String.toList_ofList, List.cons_append]

/-- **Quoted texts** tell what they quote, and where they end. -/
theorem toldApart_quote (s t : String) : ToldApart (fun s => (quote s).toList) s t := by
  intro r r' h
  simp only [toList_quote, List.cons_append, List.append_assoc, List.cons.injEq, true_and] at h
  obtain ⟨hs, hr⟩ := quoted_append_inj h
  exact ⟨String.toList_injective hs, hr⟩

/-- Different texts are quoted differently. -/
theorem quote_injective {s t : String} (h : quote s = quote t) : s = t := by
  have heq : (quote s).toList ++ [] = (quote t).toList ++ [] := by rw [h]
  exact (toldApart_quote s t [] [] heq).1

/-- Quoted texts are told apart by their characters. -/
theorem toldApart_toList_quote (s t : String) : ToldApart String.toList (quote s) (quote t) := by
  intro r r' h
  obtain ⟨rfl, hr⟩ := toldApart_quote s t r r' h
  exact ⟨rfl, hr⟩

end BlockLanguage
