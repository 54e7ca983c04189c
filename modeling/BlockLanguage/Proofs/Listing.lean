import BlockLanguage.CommandLine.Run
import BlockLanguage.Proofs.Decimal
import BlockLanguage.Proofs.Spaced

namespace BlockLanguage

/-!
# Listings of tokens

A listing has a line for each token: the place of the token, filled up with spaces, and its
text.  The numbers end where no digit goes on, and no text of a token begins with a space or
holds a newline, so the tokens can be read back from their listing.

* `listing` — the listing of tokens;
* `takeNumber`, `Token.ofListed`, `tokensListed` — how numbers, tokens and listings are read;
* `Token.Listable`, `listable_of_mem_tokenize` — the tokens for which this is right;
* `tokensListed_listing` — what is read from a listing;
* `listings_tell_tokens` — the command that lists the tokens of a file.
-/

/-- The text that lists tokens. -/
def listing (ts : List Token) : String := String.join (ts.map Command.tokenLine)

/-! ### Reading a listing -/

/-- The number that the digits in front of `cs` write, and what stands behind them. -/
def takeNumber (cs : List Char) : Nat × List Char :=
  (decimalValue 0 (cs.takeWhile Char.isDigit), cs.dropWhile Char.isDigit)

/-- The token that the characters of a line tell of: its line, a sign, its column, and behind
    the spaces its text. -/
def Token.ofListed (cs : List Char) : Token :=
  let line := takeNumber cs
  let column := takeNumber line.2.tail
  ⟨String.ofList (column.2.dropWhile (· == ' ')), ⟨line.1, column.1⟩⟩

/-- The tokens that the lines of a listing tell of.  Nothing stands behind the last newline. -/
def tokensListed (text : String) : List Token :=
  (text.toList.splitOn '\n').dropLast.map Token.ofListed

/-- A number is read back where no digit stands behind it. -/
theorem takeNumber_toString (n : Nat) {c : Char} (hc : c.isDigit = false) (cs : List Char) :
    takeNumber ((toString n).toList ++ c :: cs) = (n, c :: cs) := by
  obtain ⟨d, ds, hlist, hdigits, hvalue⟩ := exists_digits n
  have hstop : ¬ c.isDigit = true := by simp [hc]
  unfold takeNumber
  rw [hlist, List.takeWhile_append_of_pos hdigits, List.dropWhile_append_of_pos hdigits,
    List.takeWhile_cons_of_neg hstop, List.dropWhile_cons_of_neg hstop, List.append_nil, hvalue]

/-! ### Tokens that can be listed -/

/-- The text of the token does not begin with a space, and stands on one line. -/
structure Token.Listable (t : Token) : Prop where
  begins : ∀ c ∈ t.text.toList.head?, c ≠ ' '
  newline_not_mem : '\n' ∉ t.text.toList

/-- No character of a text that stands alone is blank. -/
theorem StandsAlone.isBlank_eq_false {w : String} (h : StandsAlone w) :
    ∀ c ∈ w.toList, isBlank c = false := by
  intro c hc
  rw [← h.lexeme.inked_eq, inked, List.mem_filter] at hc
  simpa using hc.2

/-- The tokens of a text can be listed. -/
theorem listable_of_mem_tokenize {source : String} {t : Token} (h : t ∈ tokenize source) :
    t.Listable := by
  obtain ⟨ts, htokens, hsegments⟩ := exists_segments .start source.toList [] rfl (.inl nofun)
  rw [tokenize, htokens, List.mem_append, List.mem_singleton] at h
  rcases h with h | rfl
  · have halone := standsAlone_of_segments hsegments t h
    refine ⟨fun c hc => ?_, halone.newline_not_mem⟩
    rintro rfl
    have := halone.isBlank_eq_false ' ' (List.mem_of_mem_head? hc)
    exact absurd this (by decide)
  · -- The end mark holds spaces, but begins with none.
    have hbegins : ∀ c ∈ endMark.toList.head?, c ≠ ' ' := by simp [endMark]
    have hline : '\n' ∉ endMark.toList := by simp [endMark]
    exact ⟨hbegins, hline⟩

/-! ### What is read -/

/-- The characters of the line that lists a token, without the newline. -/
def Token.listed (t : Token) : List Char :=
  (toString t.position.line).toList ++ ':' :: ((toString t.position.column).toList ++
    ' ' :: (List.replicate (8 - t.position.text.length) ' ' ++ t.text.toList))

theorem toList_tokenLine (t : Token) : (Command.tokenLine t).toList = t.listed ++ ['\n'] := by
  have hcolon : ":".toList = [':'] := rfl
  have hspace : " ".toList = [' '] := rfl
  have hnewline : "\n".toList = ['\n'] := rfl
  -- The space behind the place makes one more in front of the text.
  have hspaces : ∀ n (cs : List Char),
      List.replicate n ' ' ++ ' ' :: cs = ' ' :: (List.replicate n ' ' ++ cs) := by
    intro n cs
    rw [List.append_cons, ← List.replicate_succ', List.replicate_succ, List.cons_append]
  unfold Command.tokenLine padRight Position.text Token.listed
  simp only [String.toList_append, toList_spaces, hcolon, hspace, hnewline, List.append_assoc,
    List.cons_append, List.nil_append, hspaces]
  rfl

/-- A token is read back from its line. -/
theorem Token.Listable.ofListed_listed {t : Token} (h : t.Listable) :
    Token.ofListed t.listed = t := by
  have hspaces : ∀ c ∈ List.replicate (8 - t.position.text.length) ' ', (c == ' ') = true := by
    intro c hc
    rw [List.eq_of_mem_replicate hc]
    rfl
  have htext : t.text.toList.dropWhile (· == ' ') = t.text.toList := by
    cases hchars : t.text.toList with
    | nil => rfl
    | cons c cs =>
      have hc : c ≠ ' ' := h.begins c (by rw [hchars]; rfl)
      exact List.dropWhile_cons_of_neg (by simpa using hc)
  have hdrop : (' ' :: (List.replicate (8 - t.position.text.length) ' ' ++ t.text.toList)).dropWhile
      (· == ' ') = t.text.toList := by
    rw [List.dropWhile_cons_of_pos rfl, List.dropWhile_append_of_pos hspaces, htext]
  unfold Token.ofListed Token.listed
  simp only [takeNumber_toString _ (show ':'.isDigit = false from rfl), List.tail_cons,
    takeNumber_toString _ (show ' '.isDigit = false from rfl), hdrop, String.ofList_toList]

/-- A token that can be listed is listed on one line. -/
theorem Token.Listable.newline_not_mem_listed {t : Token} (h : t.Listable) : '\n' ∉ t.listed := by
  have hnumber : ∀ n : Nat, '\n' ∉ (toString n).toList := by
    intro n hmem
    obtain ⟨d, ds, hlist, hdigits, -⟩ := exists_digits n
    exact absurd (hdigits _ (hlist ▸ hmem)) (by decide)
  have hspaces : '\n' ∉ List.replicate (8 - t.position.text.length) ' ' := fun hmem =>
    absurd (List.eq_of_mem_replicate hmem) (by decide)
  unfold Token.listed
  simp only [List.mem_append, List.mem_cons, not_or]
  exact ⟨hnumber _, by decide, hnumber _, by decide, hspaces, h.newline_not_mem⟩

/-- The lines of a listing are those of its tokens, with nothing behind the last. -/
theorem splitOn_listing {ts : List Token} (h : ∀ t ∈ ts, t.Listable) :
    (listing ts).toList.splitOn '\n' = ts.map Token.listed ++ [[]] := by
  induction ts with
  | nil => rfl
  | cons t ts ih =>
    rw [List.forall_mem_cons] at h
    have hjoin : (listing (t :: ts)).toList = t.listed ++ '\n' :: (listing ts).toList := by
      unfold listing
      rw [List.map_cons, String.join_cons, String.toList_append, toList_tokenLine,
        List.append_assoc, List.singleton_append]
    rw [hjoin, List.splitOn_append_cons_self_of_not_mem h.1.newline_not_mem_listed, ih h.2]
    rfl

/-- **What is read from a listing** are the tokens listed, if they can be. -/
theorem tokensListed_listing {ts : List Token} (h : ∀ t ∈ ts, t.Listable) :
    tokensListed (listing ts) = ts := by
  have hlines : ∀ t ∈ ts, (Token.ofListed ∘ Token.listed) t = id t :=
    fun t ht => (h t ht).ofListed_listed
  unfold tokensListed
  rw [splitOn_listing h, List.dropLast_concat, List.map_map, List.map_congr_left hlines,
    List.map_id]

/-! ### The command -/

/-- What the command that lists tokens does with a file that holds a text. -/
theorem runArguments_tokens {filter : Option LogFilter}
    {readFile : String → Except FileError ByteArray} {args : List String} {verbose : Bool}
    {file source : String} (hargs : Request.ofArguments? args = some (.run verbose (.tokens file)))
    (hread : readFile file = .ok source.toUTF8) :
    runArguments filter readFile args = ⟨0, listing (tokenize source), []⟩ := by
  have htext : Command.readText readFile file = .ok source := Command.readText_eq_ok_iff.2 hread
  rw [runArguments_of_request hargs, Command.run]
  simp only [htext]
  rfl

section
variable {filter₁ filter₂ : Option LogFilter}
  {readFile₁ readFile₂ : String → Except FileError ByteArray} {args₁ args₂ : List String}
  {verbose₁ verbose₂ : Bool} {file₁ file₂ source₁ source₂ : String}

/-- **The listing of tokens loses nothing.**  The command writes the same for two texts exactly
    where their tokens are the same, texts and places: they can be read back from what it writes. -/
theorem listings_tell_tokens
    (hargs₁ : Request.ofArguments? args₁ = some (.run verbose₁ (.tokens file₁)))
    (hread₁ : readFile₁ file₁ = .ok source₁.toUTF8)
    (hargs₂ : Request.ofArguments? args₂ = some (.run verbose₂ (.tokens file₂)))
    (hread₂ : readFile₂ file₂ = .ok source₂.toUTF8) :
    ((runArguments filter₁ readFile₁ args₁).output = (runArguments filter₂ readFile₂ args₂).output ↔
        tokenize source₁ = tokenize source₂) ∧
      tokensListed (runArguments filter₁ readFile₁ args₁).output = tokenize source₁ ∧
      tokensListed (runArguments filter₂ readFile₂ args₂).output = tokenize source₂ ∧
      (runArguments filter₁ readFile₁ args₁).code = 0 ∧
      (runArguments filter₂ readFile₂ args₂).code = 0 := by
  have hback : ∀ source, tokensListed (listing (tokenize source)) = tokenize source :=
    fun source => tokensListed_listing fun t ht => listable_of_mem_tokenize ht
  rw [runArguments_tokens hargs₁ hread₁, runArguments_tokens hargs₂ hread₂]
  refine ⟨⟨fun heq => ?_, fun heq => ?_⟩, hback source₁, hback source₂, rfl, rfl⟩
  · -- Equal listings are read as equal tokens.
    have heq : listing (tokenize source₁) = listing (tokenize source₂) := heq
    rw [← hback source₁, ← hback source₂, heq]
  · rw [heq]

end

/-- The same words with one of them a column further on are listed otherwise, and with another
    blank between them alike.  The tokens are read back. -/
theorem listings_tell_columns :
    let output := fun text : String =>
      (runArguments none (fun _ => .ok text.toUTF8) ["tokens", "a.bl"]).output
    output "WHILE é" ≠ output "WHILE  é" ∧ output "WHILE é" = output "WHILE\té" ∧
      tokensListed (output "WHILE é") = [⟨"WHILE", ⟨1, 1⟩⟩, ⟨"é", ⟨1, 7⟩⟩, .atEnd ⟨1, 8⟩] ∧
      tokensListed (output "WHILE  é") = [⟨"WHILE", ⟨1, 1⟩⟩, ⟨"é", ⟨1, 8⟩⟩, .atEnd ⟨1, 9⟩] := by
  intro output
  have hargs : Request.ofArguments? ["tokens", "a.bl"] = some (.run false (.tokens "a.bl")) := by
    decide +kernel
  have hdiffer : tokenize "WHILE é" ≠ tokenize "WHILE  é" := by decide +kernel
  have hsame : tokenize "WHILE é" = tokenize "WHILE\té" := by decide +kernel
  have hfurther :
      (output "WHILE é" = output "WHILE  é" ↔ tokenize "WHILE é" = tokenize "WHILE  é") ∧
        tokensListed (output "WHILE é") = tokenize "WHILE é" ∧
        tokensListed (output "WHILE  é") = tokenize "WHILE  é" ∧ _ ∧ _ :=
    listings_tell_tokens hargs rfl hargs rfl
  obtain ⟨hiff, hback, hback', -⟩ := hfurther
  refine ⟨fun heq => hdiffer (hiff.1 heq), ?_, ?_, ?_⟩
  · exact (listings_tell_tokens hargs rfl hargs rfl).1.2 hsame
  · rw [hback]
    decide +kernel
  · rw [hback']
    decide +kernel

end BlockLanguage
