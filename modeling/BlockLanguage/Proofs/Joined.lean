import BlockLanguage.Proofs.Legible
import BlockLanguage.Proofs.Segments
import Mathlib.Data.List.TakeWhile

namespace BlockLanguage

/-!
# Texts put together

The scan of two texts, one behind the other, finds the tokens of the first and then
those of the second.  The first text moves the tokens of the second: down by its newlines,
and those of the first line to the right by what stands in its last line.  Only where a word
goes on across the place between them do two tokens become one.

* `Position.moved`, `Token.moved` — places and tokens of a text with characters in front;
* `Seam.of_append`, `exists_last_word` — where the place between two texts is cut;
* `scanFrom_append` — characters behind others, where no word goes on;
* `scanFrom_moved` — characters scanned from another place;
* `tokenize_append` — texts put together where no word goes on;
* `tokenize_joins_texts` — the tokens of two texts put together.
-/

/-! ### Places moved -/

/-- What a place of a text becomes when the characters `cs` are put in front of the text:
    their newlines add lines, and the first line begins behind their last one. -/
def Position.moved (cs : List Char) (p : Position) : Position :=
  if p.line = 1 then
    ⟨p.line + cs.count '\n', p.column + (cs.reverse.takeWhile (· != '\n')).length⟩
  else ⟨p.line + cs.count '\n', p.column⟩

/-- A token with its place moved. -/
def Token.moved (cs : List Char) (t : Token) : Token := ⟨t.text, t.position.moved cs⟩

namespace Position

/-- The first place of a text becomes the place behind what is put in front. -/
theorem start_moved (cs : List Char) : start.moved cs = start.after cs := by
  rw [← behind_eq_after]
  rfl

theorem one_le_line_advance {p : Position} (h : 1 ≤ p.line) (c : Char) :
    1 ≤ (p.advance c).line := by
  unfold advance
  split
  · exact Nat.le_add_left 1 p.line
  · exact h

/-- One character leads on alike before and after the move. -/
theorem advance_moved (cs : List Char) {p : Position} (h : 1 ≤ p.line) (c : Char) :
    (p.moved cs).advance c = (p.advance c).moved cs := by
  by_cases hc : c = '\n'
  · -- The next line is not the first one, so its columns stay.
    have hline : ¬ p.line + 1 = 1 := by omega
    have hmoved : (p.moved cs).line = p.line + cs.count '\n' := by
      unfold moved
      split <;> rfl
    have hnext : (⟨p.line + 1, 1⟩ : Position).moved cs = ⟨p.line + 1 + cs.count '\n', 1⟩ :=
      if_neg hline
    rw [advance, if_pos hc, advance, if_pos hc, hnext, hmoved, Nat.add_right_comm]
  · simp only [advance, if_neg hc, moved]
    split
    · rw [Nat.add_right_comm]
    · rfl

/-- So does a run of characters. -/
theorem after_moved (cs : List Char) {p : Position} (h : 1 ≤ p.line) (ds : List Char) :
    (p.moved cs).after ds = (p.after ds).moved cs := by
  induction ds generalizing p with
  | nil => rfl
  | cons d ds ih =>
    rw [after_cons, after_cons, advance_moved cs h, ih (one_le_line_advance h d)]

theorem one_le_line_after {p : Position} (h : 1 ≤ p.line) (ds : List Char) :
    1 ≤ (p.after ds).line := by
  induction ds generalizing p with
  | nil => exact h
  | cons d ds ih => exact ih (one_le_line_advance h d)

end Position

/-- **Another place.**  Characters scanned from a place that has been moved give the same
    tokens, moved alike. -/
theorem scanFrom_moved (before : List Char) {p : Position} (h : 1 ≤ p.line) (cs : List Char) :
    scanFrom (p.moved before) cs = (scanFrom p cs).map (Token.moved before) := by
  fun_induction scanFrom p cs with
  | case1 p =>
    rw [scanFrom_nil]
    rfl
  | case2 p c cs hblank ih =>
    rw [scanFrom_blank _ hblank, Position.advance_moved _ h, ih (Position.one_le_line_advance h c)]
  | case3 p c cs hblank hword word ih =>
    rw [Bool.not_eq_true] at hblank
    rw [scanFrom_word _ hblank hword, Position.after_moved _ h,
      ih (Position.one_le_line_after h word)]
    rfl
  | case4 p c cs hblank hword ih =>
    rw [Bool.not_eq_true] at hblank hword
    rw [scanFrom_other _ hblank hword, Position.advance_moved _ h,
      ih (Position.one_le_line_advance h c)]
    rfl

/-! ### Seams -/

/-- Whether a word goes on does not depend on what stands further in front. -/
theorem Seam.of_append (us : List Char) {cs ds : List Char} (h : Seam (us ++ cs) ds) :
    Seam cs ds := by
  refine h.imp_left fun hlast c hc => hlast c ?_
  rw [List.getLast?_append, Option.mem_def.1 hc]
  rfl

/-- Behind a run of word characters, a seam stands where no other word character does. -/
theorem Seam.head_of_word {cs ds : List Char} (h : Seam cs ds) (hne : cs ≠ [])
    (hcs : ∀ c ∈ cs, isWordChar c = true) : ∀ d ∈ ds.head?, isWordChar d = false := by
  rcases h with h | h
  · have hlast := h _ (List.getLast?_eq_some_getLast hne)
    rw [hcs _ (List.getLast_mem hne)] at hlast
    cases hlast
  · exact h

/-- Across a seam, a run of word characters is not longer than in front of it. -/
theorem takeWhile_append_of_seam {c : Char} {cs ds : List Char} (hc : isWordChar c = true)
    (h : Seam (c :: cs) ds) :
    (cs ++ ds).takeWhile isWordChar = cs.takeWhile isWordChar ∧
      (cs ++ ds).dropWhile isWordChar = cs.dropWhile isWordChar ++ ds := by
  induction cs generalizing c with
  | nil =>
    have hhead := h.head_of_word (List.cons_ne_nil c []) (by simpa using hc)
    cases ds with
    | nil => exact ⟨rfl, rfl⟩
    | cons d ds =>
      have hd : ¬ isWordChar d = true := by simp [hhead d rfl]
      exact ⟨List.takeWhile_cons_of_neg hd, List.dropWhile_cons_of_neg hd⟩
  | cons e cs ih =>
    by_cases he : isWordChar e = true
    · obtain ⟨htake, hdrop⟩ := ih he (Seam.of_append [c] h)
      simp only [List.cons_append, List.takeWhile_cons_of_pos he, List.dropWhile_cons_of_pos he,
        htake, hdrop, and_self]
    · simp only [List.cons_append, List.takeWhile_cons_of_neg he, List.dropWhile_cons_of_neg he,
        and_self]

/-- Characters end in a run of word characters, which may be empty, behind none. -/
theorem exists_last_word (cs : List Char) :
    ∃ before w, cs = before ++ w ∧ (∀ c ∈ w, isWordChar c = true) ∧
      ∀ c ∈ before.getLast?, isWordChar c = false := by
  refine ⟨(cs.reverse.dropWhile isWordChar).reverse, (cs.reverse.takeWhile isWordChar).reverse,
    ?_, ?_, ?_⟩
  · rw [← List.reverse_append, List.takeWhile_append_dropWhile, List.reverse_reverse]
  · intro c hc
    exact List.all_eq_true.1 List.all_takeWhile c (List.mem_reverse.1 hc)
  · rw [List.getLast?_reverse]
    exact isWordChar_head?_dropWhile cs.reverse

/-! ### Scans put together -/

/-- A scan finds the end mark behind all other tokens. -/
theorem scanFrom_eq_dropLast (p : Position) (cs : List Char) :
    scanFrom p cs = (scanFrom p cs).dropLast ++ [Token.atEnd (p.after cs)] := by
  obtain ⟨ts, heq, -⟩ := exists_scanFrom_eq p cs
  rw [heq, List.dropLast_concat]

theorem scanFrom_ne_nil (p : Position) (cs : List Char) : scanFrom p cs ≠ [] := by
  rw [scanFrom_eq_dropLast]
  simp

/-- **Characters behind others.**  Where no word goes on, the scan finds the tokens of
    the ones, and then those of the others. -/
theorem scanFrom_append (p : Position) {cs ds : List Char} (h : Seam cs ds) :
    scanFrom p (cs ++ ds) = (scanFrom p cs).dropLast ++ scanFrom (p.after cs) ds := by
  fun_induction scanFrom p cs with
  | case1 p => rfl
  | case2 p c cs hblank ih =>
    rw [List.cons_append, scanFrom_blank p hblank, ih (Seam.of_append [c] h),
      Position.after_cons]
  | case3 p c cs hblank hword word ih =>
    rw [Bool.not_eq_true] at hblank
    obtain ⟨htake, hdrop⟩ := takeWhile_append_of_seam hword h
    have hsplit : word ++ cs.dropWhile isWordChar = c :: cs := by
      rw [List.cons_append, List.takeWhile_append_dropWhile]
    have hbehind : Seam (cs.dropWhile isWordChar) ds := by
      rw [← hsplit] at h
      exact h.of_append word
    rw [List.cons_append, scanFrom_word p hblank hword, htake, hdrop, ih hbehind,
      List.dropLast_cons_of_ne_nil (scanFrom_ne_nil _ _), ← Position.after_append, hsplit,
      List.cons_append]
  | case4 p c cs hblank hword ih =>
    rw [Bool.not_eq_true] at hblank hword
    rw [List.cons_append, scanFrom_other p hblank hword, ih (Seam.of_append [c] h),
      List.dropLast_cons_of_ne_nil (scanFrom_ne_nil _ _), Position.after_cons, List.cons_append]

/-- A word, and nothing behind it. -/
theorem scanFrom_run_nil (p : Position) {w : List Char} (hne : w ≠ [])
    (hw : ∀ c ∈ w, isWordChar c = true) :
    scanFrom p w = [⟨String.ofList w, p⟩, Token.atEnd (p.after w)] := by
  have hnone : ∀ c ∈ ([] : List Char).head?, isWordChar c = false := nofun
  have hrun := scanFrom_run p hne hw hnone
  rwa [List.append_nil, scanFrom_nil] at hrun

/-- A run of word characters is a word. -/
theorem isWord_ofList {w : List Char} (hne : w ≠ []) (hw : ∀ c ∈ w, isWordChar c = true) :
    IsWord (String.ofList w) := by
  constructor
  · rwa [String.toList_ofList]
  · rwa [String.toList_ofList]

/-- **Characters that go on with a word.**  The last token of the ones and the first token
    of the others are words, and become one. -/
theorem exists_scanFrom_append (p q : Position) {cs ds : List Char} (h : ¬ Seam cs ds) :
    ∃ us v w ws, IsWord v.text ∧ IsWord w.text ∧
      (scanFrom p cs).dropLast = us ++ [v] ∧
      scanFrom q ds = w :: scanFrom (q.after w.text.toList) ws ∧
      scanFrom p (cs ++ ds) = us ++ ⟨v.text ++ w.text, v.position⟩ ::
        scanFrom ((p.after cs).after w.text.toList) ws := by
  obtain ⟨before, u, rfl, hu, hbefore⟩ := exists_last_word cs
  have hv : ∀ c ∈ ds.takeWhile isWordChar, isWordChar c = true :=
    List.all_eq_true.1 List.all_takeWhile
  have hrest := isWordChar_head?_dropWhile ds
  have hsplit : ds.takeWhile isWordChar ++ ds.dropWhile isWordChar = ds :=
    List.takeWhile_append_dropWhile
  generalize ds.takeWhile isWordChar = v at hv hsplit
  generalize ds.dropWhile isWordChar = rest at hrest hsplit
  subst hsplit
  -- Without a word on either side there would be a seam.
  have hune : u ≠ [] := by
    rintro rfl
    rw [List.append_nil] at h
    exact h (.inl hbefore)
  have hvne : v ≠ [] := by
    rintro rfl
    exact h (.inr hrest)
  have hboth : ∀ c ∈ u ++ v, isWordChar c = true := List.forall_mem_append.2 ⟨hu, hv⟩
  refine ⟨(scanFrom p before).dropLast, ⟨String.ofList u, p.after before⟩, ⟨String.ofList v, q⟩,
    rest, isWord_ofList hune hu, isWord_ofList hvne hv, ?_, ?_, ?_⟩
  · rw [scanFrom_append p (.inl hbefore), scanFrom_run_nil _ hune hu]
    simp
  · rw [scanFrom_run q hvne hv hrest, String.toList_ofList]
  · rw [List.append_assoc, ← List.append_assoc u, scanFrom_append p (.inl hbefore),
      scanFrom_run _ (List.append_ne_nil_of_left_ne_nil hune v) hboth hrest, String.ofList_append,
      String.toList_ofList, Position.after_append, Position.after_append]

/-! ### Whole texts -/

/-- Where no word goes on, the tokens of two texts are those of the first one without its
    end mark, and those of the second one moved. -/
theorem tokenize_append {a b : String} (h : Seam a.toList b.toList) :
    tokenize (a ++ b) = (tokenize a).dropLast ++ (tokenize b).map (Token.moved a.toList) := by
  simp only [tokenize, String.toList_append]
  rw [scanFrom_append .start h, ← Position.start_moved, scanFrom_moved _ (Nat.le_refl 1)]

/-- **The tokens of two texts put together.**  If no word goes on across the place between
    them, these are the tokens of the first text without its end mark, and those of the
    second one moved.  If a word goes on, the only difference is that the last word of the
    first text and the first word of the second one are one token, at the place of the
    former. -/
theorem tokenize_joins_texts (a b : String) :
    (Seam a.toList b.toList →
      tokenize (a ++ b) = (tokenize a).dropLast ++ (tokenize b).map (Token.moved a.toList)) ∧
    (¬ Seam a.toList b.toList → ∃ us v w ws, IsWord v.text ∧ IsWord w.text ∧
      (tokenize a).dropLast = us ++ [v] ∧ tokenize b = w :: ws ∧
      tokenize (a ++ b) =
        us ++ ⟨v.text ++ w.text, v.position⟩ :: ws.map (Token.moved a.toList)) := by
  refine ⟨tokenize_append, fun h => ?_⟩
  have hstart : 1 ≤ Position.start.line := Nat.le_refl 1
  obtain ⟨us, v, w, ws, hv, hw, ha, hb, hab⟩ := exists_scanFrom_append .start .start h
  refine ⟨us, v, w, _, hv, hw, ha, hb, ?_⟩
  rw [tokenize, String.toList_append, hab, ← Position.start_moved, Position.after_moved _ hstart,
    scanFrom_moved _ (Position.one_le_line_after hstart _)]

/-- A word behind a newline goes on in another text, and does not go on behind a blank. -/
theorem tokenize_joins_broken_word :
    (Seam "go\nin".toList " fect\nx".toList ∧
      tokenize ("go\nin" ++ " fect\nx") =
        (tokenize "go\nin").dropLast ++
          (tokenize " fect\nx").map (Token.moved "go\nin".toList)) ∧
    (¬ Seam "go\nin".toList "fect\nx".toList ∧
      ∃ us v w ws, IsWord v.text ∧ IsWord w.text ∧
        (tokenize "go\nin").dropLast = us ++ [v] ∧ tokenize "fect\nx" = w :: ws ∧
        tokenize ("go\nin" ++ "fect\nx") =
          us ++ ⟨v.text ++ w.text, v.position⟩ :: ws.map (Token.moved "go\nin".toList)) := by
  have hseam : Seam "go\nin".toList " fect\nx".toList := by
    right
    rintro c hc
    obtain rfl : ' ' = c := by simpa using hc
    decide
  have hword : ¬ Seam "go\nin".toList "fect\nx".toList := by
    rintro (h | h)
    · exact absurd (h 'n' (by simp)) (by decide)
    · exact absurd (h 'f' (by simp)) (by decide)
  exact ⟨⟨hseam, (tokenize_joins_texts _ _).1 hseam⟩, hword, (tokenize_joins_texts _ _).2 hword⟩

end BlockLanguage
