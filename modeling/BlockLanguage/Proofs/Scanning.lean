import BlockLanguage.Proofs.Follows
import BlockLanguage.Token.Scan

namespace BlockLanguage

/-!
# What the scan finds

Each token begins behind the one before it, so a place determines a token, and the
end mark is the last one.

* `Position.Before`, `Position.UpTo` — the order in which the places of a text are
  reached;
* `scanFrom_ascending` — tokens stand in this order;
* `tokenize_position_injective` — no two tokens of a text have one position;
* `scanFrom_run` — a word and what stands behind it;
* `exists_tokenize_eq` — the end mark stands behind all other tokens.
-/

/-! ### Places in order -/

namespace Position

/-- The place `p` is reached before the place `q`. -/
def Before (p q : Position) : Prop := p.line < q.line ∨ p.line = q.line ∧ p.column < q.column

theorem not_before_self (p : Position) : ¬ p.Before p := by
  unfold Before
  omega

theorem Before.trans {p q r : Position} (hpq : p.Before q) (hqr : q.Before r) : p.Before r := by
  unfold Before at *
  omega

/-- The place `q` is the place `p`, or is reached behind it. -/
def UpTo (p q : Position) : Prop := q = p ∨ p.Before q

theorem Before.trans_upTo {p q r : Position} (hpq : p.Before q) (hqr : q.UpTo r) :
    p.Before r := by
  rcases hqr with rfl | hqr
  · exact hpq
  · exact hpq.trans hqr

/-- Each character leads on. -/
theorem before_advance (p : Position) (c : Char) : p.Before (p.advance c) := by
  unfold advance
  split
  · exact .inl (Nat.lt_succ_self p.line)
  · exact .inr ⟨rfl, Nat.lt_succ_self p.column⟩

/-- A run of characters leads on, however long it is. -/
theorem before_after (p : Position) (c : Char) (cs : List Char) : p.Before (p.after (c :: cs)) := by
  induction cs generalizing p c with
  | nil => exact before_advance p c
  | cons d cs ih =>
    rw [after_cons]
    exact (before_advance p c).trans (ih (p.advance c) d)

end Position

/-! ### Tokens in order -/

/-- No token begins before the place where the scan does. -/
theorem upTo_of_mem_scanFrom {p : Position} {cs : List Char} {t : Token}
    (h : t ∈ scanFrom p cs) : p.UpTo t.position := by
  fun_induction scanFrom p cs with
  | case1 p =>
    obtain rfl := List.mem_singleton.1 h
    exact .inl rfl
  | case2 p c cs hblank ih => exact .inr ((p.before_advance c).trans_upTo (ih h))
  | case3 p c cs hblank hword word ih =>
    rcases List.mem_cons.1 h with rfl | h
    · exact .inl rfl
    · exact .inr ((p.before_after c _).trans_upTo (ih h))
  | case4 p c cs hblank hword ih =>
    rcases List.mem_cons.1 h with rfl | h
    · exact .inl rfl
    · exact .inr ((p.before_advance c).trans_upTo (ih h))

/-- **Tokens in order.**  Each token begins behind all tokens before it. -/
theorem scanFrom_ascending (p : Position) (cs : List Char) :
    (scanFrom p cs).Pairwise fun s t => s.position.Before t.position := by
  -- What follows a token is scanned from a place behind its beginning.
  have hbehind : ∀ {p q : Position} {cs : List Char}, p.Before q →
      ∀ t ∈ scanFrom q cs, p.Before t.position :=
    fun hpq t ht => hpq.trans_upTo (upTo_of_mem_scanFrom ht)
  fun_induction scanFrom p cs with
  | case1 p => exact List.pairwise_singleton ..
  | case2 p c cs hblank ih => exact ih
  | case3 p c cs hblank hword word ih =>
    exact List.pairwise_cons.2 ⟨hbehind (p.before_after c _), ih⟩
  | case4 p c cs hblank hword ih =>
    exact List.pairwise_cons.2 ⟨hbehind (p.before_advance c), ih⟩

/-- The place of a token tells which token it is. -/
theorem tokenize_position_injective {source : String} {i j : Nat} {t u : Token}
    (ht : (tokenize source)[i]? = some t) (hu : (tokenize source)[j]? = some u)
    (h : t.position = u.position) : i = j := by
  have hascending := List.pairwise_iff_getElem.1 (scanFrom_ascending .start source.toList)
  obtain ⟨hi, rfl⟩ := List.getElem?_eq_some_iff.1 ht
  obtain ⟨hj, rfl⟩ := List.getElem?_eq_some_iff.1 hu
  rcases Nat.lt_trichotomy i j with hlt | heq | hlt
  · have hbefore := hascending i j hi hj hlt
    exact absurd (h ▸ hbefore) (Position.not_before_self _)
  · exact heq
  · have hbefore := hascending j i hj hi hlt
    exact absurd (h ▸ hbefore) (Position.not_before_self _)

/-! ### Blanks -/

/-- No blank is part of a word. -/
theorem isWordChar_of_isBlank {c : Char} (h : isBlank c = true) : isWordChar c = false := by
  rw [← Bool.not_eq_true]
  intro hword
  rw [isBlank_of_isWordChar hword] at h
  cases h

/-- A blank ends a word. -/
theorem head?_of_isBlank {c : Char} (h : isBlank c = true) (cs : List Char) :
    ∀ d ∈ (c :: cs).head?, isWordChar d = false := by
  intro d hd
  obtain rfl : c = d := Option.some.inj hd
  exact isWordChar_of_isBlank h

/-! ### Words -/

/-- A word, and characters behind it with which it does not go on. -/
theorem scanFrom_run (p : Position) {w cs : List Char} (hne : w ≠ [])
    (hw : ∀ c ∈ w, isWordChar c = true) (hcs : ∀ c ∈ cs.head?, isWordChar c = false) :
    scanFrom p (w ++ cs) = ⟨String.ofList w, p⟩ :: scanFrom (p.after w) cs := by
  obtain ⟨c, w, rfl⟩ := List.exists_cons_of_ne_nil hne
  rw [List.forall_mem_cons] at hw
  obtain ⟨hc, hw⟩ := hw
  -- The word is taken up to the first character that is no part of it.
  have hnone : cs.takeWhile isWordChar = [] ∧ cs.dropWhile isWordChar = cs := by
    cases cs with
    | nil => exact ⟨rfl, rfl⟩
    | cons d cs =>
      have hd : ¬ isWordChar d = true := by simp [hcs d rfl]
      exact ⟨List.takeWhile_cons_of_neg hd, List.dropWhile_cons_of_neg hd⟩
  have htake : (w ++ cs).takeWhile isWordChar = w := by
    rw [List.takeWhile_append_of_pos hw, hnone.1, List.append_nil]
  have hdrop : (w ++ cs).dropWhile isWordChar = cs := by
    rw [List.dropWhile_append_of_pos hw, hnone.2]
  rw [List.cons_append, scanFrom_word p (isBlank_of_isWordChar hc) hc, htake, hdrop]

/-! ### The end mark -/

/-- Word characters do not make the end mark, which holds blanks. -/
theorem ofList_ne_endMark {cs : List Char} (h : ∀ c ∈ cs, isWordChar c = true) :
    String.ofList cs ≠ endMark := by
  intro heq
  have hblank : ' ' ∈ cs := by
    rw [← String.toList_ofList (l := cs), heq]
    decide +kernel
  have := h ' ' hblank
  exact absurd this (by decide)

/-- One character does not make the end mark. -/
theorem singleton_ne_endMark (c : Char) : String.singleton c ≠ endMark := by
  intro heq
  have hlength : (String.singleton c).length = endMark.length := by rw [heq]
  rw [String.length_singleton] at hlength
  exact absurd hlength (by decide)

/-- The end mark stands where the scan ends, behind tokens other than it. -/
theorem exists_scanFrom_eq (p : Position) (cs : List Char) :
    ∃ ts : List Token, scanFrom p cs = ts ++ [Token.atEnd (p.after cs)] ∧
      ∀ t ∈ ts, t.text ≠ endMark := by
  fun_induction scanFrom p cs with
  | case1 p => exact ⟨[], rfl, nofun⟩
  | case2 p c cs hblank ih => exact ih
  | case3 p c cs hblank hword word ih =>
    obtain ⟨ts, heq, hts⟩ := ih
    -- A word is a run of word characters, and the scan goes on behind all of them.
    have hall : ∀ d ∈ word, isWordChar d = true := by
      intro d hd
      rcases List.mem_cons.1 hd with rfl | hd
      · exact hword
      · exact List.all_eq_true.1 List.all_takeWhile d hd
    have hplace : (p.after word).after (cs.dropWhile isWordChar) = p.after (c :: cs) := by
      rw [← Position.after_append, List.cons_append, List.takeWhile_append_dropWhile]
    refine ⟨⟨String.ofList word, p⟩ :: ts, ?_, List.forall_mem_cons.2 ⟨?_, hts⟩⟩
    · rw [heq, hplace, List.cons_append]
    · exact ofList_ne_endMark hall
  | case4 p c cs hblank hword ih =>
    obtain ⟨ts, heq, hts⟩ := ih
    refine ⟨⟨String.singleton c, p⟩ :: ts, ?_, List.forall_mem_cons.2 ⟨?_, hts⟩⟩
    · rw [heq, Position.after_cons, List.cons_append]
    · exact singleton_ne_endMark c

/-- **The end mark.**  It is the last token of a text, and no other token has its
    text. -/
theorem exists_tokenize_eq (source : String) :
    ∃ (ts : List Token) (p : Position), tokenize source = ts ++ [Token.atEnd p] ∧
      ∀ t ∈ ts, t.text ≠ endMark := by
  obtain ⟨ts, h⟩ := exists_scanFrom_eq .start source.toList
  exact ⟨ts, _, h⟩

end BlockLanguage
