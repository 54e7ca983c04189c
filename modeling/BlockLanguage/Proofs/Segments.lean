import BlockLanguage.Proofs.Scanning

namespace BlockLanguage

/-!
# The text between the tokens

The scan cuts a text into blanks and tokens, and leaves nothing out.  Each token
stands at the place that counting the characters in front of it gives.

* `Position.behind` — the place behind given characters, by counting;
* `Lexeme`, `Token.Occurs` — what may be a token, and where it stands;
* `Segments` — characters that fall into blanks and given tokens;
* `exists_segments` — the scan of characters finds their segments;
* `Segments.tokenChars_eq`, `Segments.exists_occurs` — the tokens hold all characters
  but the blanks, each at its own place;
* `tokenize_cuts_text` — the tokens of a whole text.
-/

/-! ### Places by counting -/

namespace Position

/-- The place behind the characters `cs` of a text: newlines make the line, and
    characters behind the last newline the column. -/
def behind (cs : List Char) : Position :=
  ⟨1 + cs.count '\n', 1 + (cs.reverse.takeWhile (· != '\n')).length⟩

/-- One character more leads one character on. -/
theorem behind_append_singleton (cs : List Char) (c : Char) :
    behind (cs ++ [c]) = (behind cs).advance c := by
  by_cases h : c = '\n'
  · subst h
    simp [behind, advance, Nat.add_assoc]
  · simp [behind, advance, h, Nat.add_assoc]

/-- Going on character by character leads to the place that counting gives. -/
theorem behind_append (cs ds : List Char) : behind (cs ++ ds) = (behind cs).after ds := by
  induction ds generalizing cs with
  | nil => rw [List.append_nil, after_nil]
  | cons d ds ih => rw [after_cons, ← behind_append_singleton, ← ih, List.append_cons]

/-- Counting leads to the place that going on from the first character does. -/
theorem behind_eq_after (cs : List Char) : behind cs = start.after cs := behind_append [] cs

end Position

/-! ### Tokens in their surroundings -/

/-- The characters `w`, with `before` in front of them and `behind` behind, make a
    token: a run of word characters that is as long as it can be on both sides, or
    one character that is neither blank nor part of a word. -/
inductive Lexeme (before : List Char) : (w behind : List Char) → Prop
  | word {w behind : List Char} (nonempty : w ≠ []) (chars : ∀ c ∈ w, isWordChar c = true)
      (left : ∀ c ∈ before.getLast?, isWordChar c = false)
      (right : ∀ c ∈ behind.head?, isWordChar c = false) : Lexeme before w behind
  | other {c : Char} {behind : List Char} (blank : isBlank c = false)
      (word : isWordChar c = false) : Lexeme before [c] behind

/-- Behind a run of word characters that is as long as it can be stands no other. -/
theorem isWordChar_head?_dropWhile (cs : List Char) :
    ∀ c ∈ (cs.dropWhile isWordChar).head?, isWordChar c = false := by
  intro c hc
  have hnot := List.head?_dropWhile_not isWordChar cs
  rw [Option.mem_def.1 hc] at hnot
  simpa using hnot

/-- A word character behind none, and all that follow it, are a token. -/
theorem lexeme_takeWhile {before cs : List Char} {c : Char} (hc : isWordChar c = true)
    (left : ∀ d ∈ before.getLast?, isWordChar d = false) :
    Lexeme before (c :: cs.takeWhile isWordChar) (cs.dropWhile isWordChar) := by
  have hchars : ∀ d ∈ c :: cs.takeWhile isWordChar, isWordChar d = true :=
    List.forall_mem_cons.2 ⟨hc, List.all_eq_true.1 List.all_takeWhile⟩
  exact .word (List.cons_ne_nil _ _) hchars left (isWordChar_head?_dropWhile cs)

/-- The token `t` stands between `before` and `behind`. -/
structure Token.Occurs (t : Token) (before behind : List Char) : Prop where
  lexeme : Lexeme before t.text.toList behind
  position : t.position = Position.behind before

/-! ### Segments -/

/-- The characters of `cs` that are not blank. -/
def inked (cs : List Char) : List Char := cs.filter fun c => !isBlank c

@[simp] theorem inked_append (cs ds : List Char) : inked (cs ++ ds) = inked cs ++ inked ds :=
  List.filter_append ..

/-- No character of a token is blank. -/
theorem Lexeme.inked_eq {before w behind : List Char} (h : Lexeme before w behind) :
    inked w = w := by
  have hinked : ∀ c ∈ w, isBlank c = false := by
    cases h with
    | word nonempty chars left right => exact fun c hc => isBlank_of_isWordChar (chars c hc)
    | other blank word => exact List.forall_mem_singleton.2 blank
  exact List.filter_eq_self.2 fun c hc => by rw [hinked c hc, Bool.not_false]

/-- The characters of the tokens, one token after the other. -/
def tokenChars (ts : List Token) : List Char := ts.flatMap fun t => t.text.toList

/-- The characters `cs`, with `before` in front of them, fall into blanks and the
    tokens `ts`. -/
inductive Segments : (before cs : List Char) → List Token → Prop
  | nil {before : List Char} : Segments before [] []
  | blank {before cs : List Char} {c : Char} {ts : List Token} (h : isBlank c = true)
      (hcs : Segments (before ++ [c]) cs ts) : Segments before (c :: cs) ts
  | token {before behind : List Char} {t : Token} {ts : List Token} (h : t.Occurs before behind)
      (hbehind : Segments (before ++ t.text.toList) behind ts) :
      Segments before (t.text.toList ++ behind) (t :: ts)

/-- A token whose characters are `w`. -/
theorem Segments.token_of_chars {before w behind : List Char} {p : Position} {ts : List Token}
    (hp : p = .behind before) (h : Lexeme before w behind)
    (hbehind : Segments (before ++ w) behind ts) :
    Segments before (w ++ behind) (⟨String.ofList w, p⟩ :: ts) := by
  have htext : (Token.mk (String.ofList w) p).text.toList = w := String.toList_ofList
  have htoken := @Segments.token before behind ⟨String.ofList w, p⟩ ts
  rw [htext] at htoken
  exact htoken ⟨htext.symm ▸ h, hp⟩ hbehind

/-- A word does not go on across the place between `before` and `cs`. -/
def Seam (before cs : List Char) : Prop :=
  (∀ c ∈ before.getLast?, isWordChar c = false) ∨ ∀ c ∈ cs.head?, isWordChar c = false

/-- Behind a character that is not part of a word, none goes on. -/
theorem seam_append_singleton (before cs : List Char) {c : Char} (h : isWordChar c = false) :
    Seam (before ++ [c]) cs := by
  refine .inl fun d hd => ?_
  rw [List.getLast?_concat] at hd
  rwa [← Option.some.inj hd]

/-- **The scan finds segments.**  Where no word goes on, what is scanned falls into
    blanks and the tokens found, with the end mark behind all of them. -/
theorem exists_segments (p : Position) (cs : List Char) :
    ∀ before, p = .behind before → Seam before cs → ∃ ts : List Token,
      scanFrom p cs = ts ++ [Token.atEnd (.behind (before ++ cs))] ∧ Segments before cs ts := by
  fun_induction scanFrom p cs with
  | case1 p =>
    intro before hp _
    rw [List.append_nil, hp]
    exact ⟨[], rfl, .nil⟩
  | case2 p c cs hblank ih =>
    intro before hp _
    have hseam : Seam (before ++ [c]) cs := seam_append_singleton _ _ (isWordChar_of_isBlank hblank)
    obtain ⟨ts, heq, hts⟩ := ih _ (by rw [hp, Position.behind_append_singleton]) hseam
    rw [List.append_assoc] at heq
    exact ⟨ts, heq, .blank hblank hts⟩
  | case3 p c cs hblank hword word ih =>
    intro before hp hseam
    have hleft : ∀ d ∈ before.getLast?, isWordChar d = false := by
      rcases hseam with h | h
      · exact h
      · rw [h c rfl] at hword
        cases hword
    have hsplit : word ++ cs.dropWhile isWordChar = c :: cs := by
      rw [List.cons_append, List.takeWhile_append_dropWhile]
    obtain ⟨ts, heq, hts⟩ := ih _ (by rw [hp, Position.behind_append])
      (.inr (isWordChar_head?_dropWhile cs))
    rw [List.append_assoc, hsplit] at heq
    rw [heq, ← hsplit]
    exact ⟨_, rfl, .token_of_chars hp (lexeme_takeWhile hword hleft) hts⟩
  | case4 p c cs hblank hword ih =>
    intro before hp _
    rw [Bool.not_eq_true] at hblank hword
    have hseam : Seam (before ++ [c]) cs := seam_append_singleton _ _ hword
    obtain ⟨ts, heq, hts⟩ := ih _ (by rw [hp, Position.behind_append_singleton]) hseam
    rw [List.append_assoc] at heq
    rw [heq]
    exact ⟨_, rfl, .token_of_chars hp (.other hblank hword) hts⟩

namespace Segments

variable {before cs : List Char} {ts : List Token}

/-- The tokens hold all characters but the blanks, in their order. -/
theorem tokenChars_eq (h : Segments before cs ts) : tokenChars ts = inked cs := by
  induction h with
  | nil => rfl
  | blank h _ ih => simpa [inked, h] using ih
  | token h _ ih =>
    rw [inked_append, h.lexeme.inked_eq, ← ih]
    rfl

/-- **Where a token stands.**  Each token occurs behind all characters of the
    tokens before it, with nothing but blanks between. -/
theorem exists_occurs {us vs : List Token} {t : Token} (h : Segments before cs (us ++ t :: vs)) :
    ∃ mid behind, cs = mid ++ t.text.toList ++ behind ∧ inked mid = tokenChars us ∧
      t.Occurs (before ++ mid) behind := by
  generalize hts : us ++ t :: vs = ts at h
  induction h generalizing us with
  | nil => simp at hts
  | @blank before cs c ts h _ ih =>
    obtain ⟨mid, behind, rfl, hmid, hoccurs⟩ := ih hts
    refine ⟨c :: mid, behind, rfl, ?_, ?_⟩
    · simpa [inked, h] using hmid
    · simpa using hoccurs
  | @token before behind s ts h hbehind ih =>
    cases us with
    | nil =>
      obtain ⟨rfl, rfl⟩ := List.cons.inj hts
      exact ⟨[], behind, rfl, rfl, by rwa [List.append_nil]⟩
    | cons u us =>
      obtain ⟨rfl, hts'⟩ := List.cons.inj hts
      obtain ⟨mid, behind', rfl, hmid, hoccurs⟩ := ih hts'
      refine ⟨u.text.toList ++ mid, behind', ?_, ?_, ?_⟩
      · simp only [List.append_assoc]
      · rw [inked_append, h.lexeme.inked_eq, hmid]
        rfl
      · rwa [← List.append_assoc]

end Segments

/-! ### Whole texts -/

/-- **The tokens of a text.**  They end with the one end mark, which stands where the
    text ends; the others hold all characters but the blanks.  Each of these occurs
    in the text as a lexeme, behind the characters of those before it, and at the
    place that the characters in front of it give.  Places ascend. -/
theorem tokenize_cuts_text (source : String) :
    ∃ ts : List Token,
      tokenize source = ts ++ [Token.atEnd (.behind source.toList)] ∧
      (∀ t ∈ ts, t.text ≠ endMark) ∧
      tokenChars ts = inked source.toList ∧
      (∀ us t vs, ts = us ++ t :: vs → ∃ before behind,
        source.toList = before ++ t.text.toList ++ behind ∧ inked before = tokenChars us ∧
          t.Occurs before behind) ∧
      (tokenize source).Pairwise fun s t => s.position.Before t.position := by
  obtain ⟨ts, htokens, hsegments⟩ := exists_segments .start source.toList []
    rfl (.inl nofun)
  obtain ⟨ts', p, htokens', hmark⟩ := exists_tokenize_eq source
  refine ⟨ts, htokens, ?_, hsegments.tokenChars_eq, ?_, scanFrom_ascending ..⟩
  · -- Both ways to cut off the last token leave the same tokens.
    have hsame : ts' ++ [Token.atEnd p] = ts ++ [Token.atEnd (.behind source.toList)] :=
      htokens'.symm.trans htokens
    rw [← (List.append_inj' hsame rfl).1]
    exact hmark
  · intro us t vs hts
    subst hts
    exact hsegments.exists_occurs

end BlockLanguage
