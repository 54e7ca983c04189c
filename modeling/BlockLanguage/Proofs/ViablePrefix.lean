import BlockLanguage.Proofs.Acceptance
import BlockLanguage.Proofs.Legible

namespace BlockLanguage

/-!
# Where a text is refused

Words are viable when some accepted text begins with them.  A text is refused at a
token behind which nothing viable is left: the words up to it and with it are not
viable.  The words before it are, if they define no name twice.

* `Viable` — words that an accepted text begins with;
* `viable_iff` — the same, said of the sentences of the grammar;
* `definedNames_append_singleton` — one more word defines at most one name more;
* `parse_error_at_first_impossible` — where, and why, a text is refused.
-/

/-- Some accepted text has words that begin with `u`. -/
def Viable (u : List String) : Prop :=
  ∃ source p, parse source = .ok p ∧ u <+: texts (tokenize source)

/-- Words are viable exactly when they begin the words of some draft in order and
    the end mark behind it. -/
theorem viable_iff {u : List String} : Viable u ↔ ∃ w p, Rule.programSentences (u ++ w) p := by
  constructor
  · intro h
    obtain ⟨source, p, hparse, w, hw⟩ := h
    obtain ⟨d, hd, hwords, rfl⟩ := outcome_parseProgram.1 hparse
    exact ⟨w, _, Rule.programSentences_iff.2 ⟨d, hd, hw.trans hwords, rfl⟩⟩
  · intro h
    obtain ⟨w, p, h⟩ := h
    obtain ⟨d, hd, hwords, rfl⟩ := Rule.programSentences_iff.1 h
    obtain ⟨source, hsource⟩ := exists_texts_tokenize hd.allWords
    refine ⟨source, _, outcome_parseProgram.2 ⟨d, hd, hsource, rfl⟩, w, ?_⟩
    rw [hsource, hwords]

/-! ### The end mark in a sentence -/

/-- The end mark is no word of a draft in order. -/
theorem Draft.WellFormed.endMark_not_mem {d : Draft} (h : d.WellFormed) : endMark ∉ d.words := by
  intro hmem
  exact (h.allWords endMark hmem).ne_endMark rfl

/-- Nothing stands behind the end mark in a sentence. -/
theorem Rule.eq_nil_of_programSentences {u w : List String} {p : Program}
    (h : Rule.programSentences (u ++ [endMark] ++ w) p) : w = [] := by
  obtain ⟨d, hd, hwords, -⟩ := Rule.programSentences_iff.1 h
  rcases List.eq_nil_or_concat w with rfl | ⟨v, x, rfl⟩
  · rfl
  · -- Else the end mark would stand in front of the last word, among those of a draft.
    rw [List.concat_eq_append, ← List.append_assoc] at hwords
    have hfront : u ++ [endMark] ++ v = d.words := (List.append_inj' hwords rfl).1
    have hmem : endMark ∈ u ++ [endMark] ++ v := by simp
    rw [hfront] at hmem
    exact absurd hmem hd.endMark_not_mem

/-! ### One more word -/

/-- Every name that words define is one of them. -/
theorem definedNames_subset (u : List String) : definedNames u ⊆ u := by
  fun_induction definedNames u with
  | case1 => exact List.Subset.refl _
  | case2 x => exact List.nil_subset _
  | case3 n w ih =>
    have htail := List.Subset.trans ih (List.subset_cons_self Keyword.instruction.text _)
    exact List.cons_subset.2 ⟨by simp, htail⟩
  | case4 x n w hx ih => exact List.Subset.trans ih (List.subset_cons_self x _)

/-- One more word defines at most one name more, which is the word itself. -/
theorem definedNames_append_singleton (u : List String) (x : String) :
    (definedNames (u ++ [x])).Sublist (definedNames u ++ [x]) := by
  fun_induction definedNames u with
  | case1 => exact List.nil_sublist _
  | case2 y =>
    show (definedNames [y, x]).Sublist [x]
    rw [definedNames]
    split
    · exact List.Sublist.refl _
    · exact List.nil_sublist _
  | case3 n w ih =>
    rw [List.cons_append, List.cons_append, definedNames, if_pos rfl]
    exact ih.cons_cons n
  | case4 y n w hy ih =>
    rw [List.cons_append, List.cons_append, definedNames, if_neg hy]
    exact ih

/-- Words that define no name twice do so with a new word behind them. -/
theorem nodup_definedNames_append_singleton {u : List String} {x : String} (hx : x ∉ u)
    (h : (definedNames u).Nodup) : (definedNames (u ++ [x])).Nodup := by
  apply List.Nodup.sublist (definedNames_append_singleton u x)
  rw [List.nodup_append]
  refine ⟨h, by simp, ?_⟩
  intro n hn y hy heq
  rw [List.mem_singleton] at hy
  subst hy
  subst heq
  exact hx (definedNames_subset u hn)

/-! ### The first impossible token -/

/-- The proviso of whole programs: no name is defined twice. -/
theorem fresh_empty_iff {u : List String} :
    (Proviso.fresh .empty).holds u ↔ (definedNames u).Nodup :=
  and_iff_left fun _ _ => Context.contains_empty _

/-- The error `s` of the tokens `ts` is about the token `t`, which has the number
    `i`: it is the first one that is impossible. -/
structure Refusal (ts : Tokens) (s : SyntaxError) (i : Nat) (t : Token) : Prop where
  token : ts[i]? = some t
  position : t.position = s.position
  blamed : s.cause.Blames t.text
  impossible : ¬ Viable ((texts ts).take (i + 1))
  viable : (definedNames ((texts ts).take i)).Nodup → Viable ((texts ts).take i)

/-- A rule that is stopped at a token refuses this one. -/
theorem refusal_of_stopped {used more : Tokens} {t : Token} {cause : Cause}
    (blamed : cause.Blames t.text)
    (viable : (Proviso.fresh .empty).holds (texts used) →
      ∃ w p, Rule.programSentences (texts used ++ w) p)
    (impossible : ∀ w p, ¬ Rule.programSentences (texts used ++ t.text :: w) p) :
    Refusal (used ++ t :: more) ⟨t.position, cause⟩ used.length t := by
  have hlength : used.length = (texts used).length := (List.length_map _).symm
  have hbefore : (texts (used ++ t :: more)).take used.length = texts used := by
    rw [texts_append, hlength, List.take_left]
  have hwith : (texts (used ++ t :: more)).take (used.length + 1) = texts used ++ [t.text] := by
    rw [texts_append, texts_cons, hlength, List.take_length_add_append]
    rfl
  refine ⟨by simp, rfl, blamed, ?_, ?_⟩
  · rw [hwith, viable_iff]
    intro h
    obtain ⟨w, p, h⟩ := h
    rw [List.append_assoc] at h
    exact impossible w p h
  · rw [hbefore, viable_iff, ← fresh_empty_iff]
    exact viable

/-- A rule that runs out of tokens refuses the end mark. -/
theorem refusal_of_ended {ts : Tokens} {q : Position} {expected : Expected}
    (hts : ∀ t ∈ ts, t.text ≠ endMark)
    (viable : (Proviso.fresh .empty).holds (texts (ts ++ [Token.atEnd q])) →
      ∃ w p, Rule.programSentences (texts (ts ++ [Token.atEnd q]) ++ w) p)
    (unfinished : ∀ p, ¬ Rule.programSentences (texts (ts ++ [Token.atEnd q])) p) :
    Refusal (ts ++ [Token.atEnd q]) ⟨q, .exhausted expected⟩ ts.length (Token.atEnd q) := by
  have hwords : texts (ts ++ [Token.atEnd q]) = texts ts ++ [endMark] := texts_append ts _
  have hlength : ts.length = (texts ts).length := (List.length_map _).symm
  have hnew : endMark ∉ texts ts := by
    intro h
    obtain ⟨t, ht, hmark⟩ := List.mem_map.1 h
    exact hts t ht hmark
  -- Nothing follows the end mark, so words that go on from here would be complete.
  have hnot : ¬ ∃ w p, Rule.programSentences (texts (ts ++ [Token.atEnd q]) ++ w) p := by
    intro h
    obtain ⟨w, p, h⟩ := h
    rw [hwords] at h
    obtain rfl := Rule.eq_nil_of_programSentences h
    rw [List.append_nil, ← hwords] at h
    exact unfinished p h
  refine ⟨by simp, rfl, nofun, ?_, ?_⟩
  · have hall : (texts (ts ++ [Token.atEnd q])).take (ts.length + 1) =
        texts (ts ++ [Token.atEnd q]) := by
      have hcount : (texts (ts ++ [Token.atEnd q])).length = ts.length + 1 := by
        rw [hwords, List.length_append, hlength, List.length_singleton]
      exact List.take_of_length_le (Nat.le_of_eq hcount)
    rw [hall, viable_iff]
    exact hnot
  · have hbefore : (texts (ts ++ [Token.atEnd q])).take ts.length = texts ts := by
      rw [hwords, hlength, List.take_left]
    rw [hbefore]
    intro hnodup
    refine absurd (viable (fresh_empty_iff.2 ?_)) hnot
    rw [hwords]
    exact nodup_definedNames_append_singleton hnew hnodup

/-- What stops the rule of programs on the tokens of a text is a refusal. -/
theorem exists_refusal {source : String} {e : Error} (h : parse source = .error e) :
    ∃ s i t, e = .malformed s ∧ Refusal (tokenize source) s i t := by
  have hfollows := Rule.follows_program (tokenize source) Rule.possible_programSentences
  have herror : (Rule.program.read (tokenize source)).outcome.mapError
      (Rule.located (tokenize source)) = .error e := h
  generalize Rule.program.read (tokenize source) = answer at hfollows herror
  -- The rule of programs blames a token or runs out of them; it is never refused a check.
  cases hfollows with
  | took split possible sound complete => cases herror
  | @stopped used more _ t cause _ split blamed viable impossible =>
    refine ⟨⟨t.position, cause⟩, used.length, t, (Except.error.inj herror).symm, ?_⟩
    rw [split]
    exact refusal_of_stopped blamed viable impossible
  | @ended expected _ _ viable unfinished =>
    obtain ⟨ts, q, heq, hts⟩ := exists_tokenize_eq source
    have hlast : Rule.lastPosition (tokenize source) = q := by
      rw [Rule.lastPosition, heq, List.getLast?_concat]
      rfl
    have hlocated := Except.error.inj herror
    rw [Rule.located, hlast] at hlocated
    refine ⟨⟨q, .exhausted expected⟩, ts.length, Token.atEnd q, hlocated.symm, ?_⟩
    rw [heq] at viable unfinished ⊢
    exact refusal_of_ended hts viable unfinished

/-- The message of a syntax error ends with that of its cause. -/
theorem SyntaxError.exists_message_eq (s : SyntaxError) :
    ∃ front, s.message = front ++ s.cause.message :=
  ⟨_, rfl⟩

/-- **Texts refused.**  A text that is no program is refused with a syntax error at
    one of its tokens.  No accepted text begins with the words up to this token, and
    one begins with the words before it if they define no name twice.  A message
    that names a token found describes this one. -/
theorem parse_error_at_first_impossible (source : String) (e : Error)
    (h : parse source = .error e) :
    ∃ (s : SyntaxError) (i : Nat) (t : Token), e = .malformed s ∧
      (tokenize source)[i]? = some t ∧ t.position = s.position ∧
      (∀ j u, (tokenize source)[j]? = some u → u.position = s.position → j = i) ∧
      ¬ Viable ((texts (tokenize source)).take (i + 1)) ∧
      ((definedNames ((texts (tokenize source)).take i)).Nodup →
        Viable ((texts (tokenize source)).take i)) ∧
      ∀ found, s.cause.found? = some found →
        found = t.text ∧ ∃ before behind, s.message = before ++ describeText t.text ++ behind := by
  obtain ⟨s, i, t, rfl, hrefusal⟩ := exists_refusal h
  refine ⟨s, i, t, rfl, hrefusal.token, hrefusal.position, ?_, hrefusal.impossible,
    hrefusal.viable, ?_⟩
  · intro j u hu hposition
    exact tokenize_position_injective hu hrefusal.token (hposition.trans hrefusal.position.symm)
  · intro found hfound
    obtain ⟨hname, before, behind, hmessage⟩ := hrefusal.blamed found hfound
    obtain ⟨front, hfront⟩ := s.exists_message_eq
    refine ⟨hname, front ++ before, behind, ?_⟩
    rw [hfront, hmessage]
    simp only [String.append_assoc]

/-- A condition is missing: the text is refused at the word that stands in its place. -/
theorem parse_error_at_missing_condition :
    parse "PROGRAM A IS BEGIN IF END A" =
        .error (.malformed ⟨⟨1, 23⟩, .unexpected (.condition .if_) "END"⟩) ∧
    ∃ (s : SyntaxError) (i : Nat) (t : Token),
      Error.malformed ⟨⟨1, 23⟩, .unexpected (.condition .if_) "END"⟩ = .malformed s ∧
      (tokenize "PROGRAM A IS BEGIN IF END A")[i]? = some t ∧ t.position = s.position ∧
      (∀ j u, (tokenize "PROGRAM A IS BEGIN IF END A")[j]? = some u →
        u.position = s.position → j = i) ∧
      ¬ Viable ((texts (tokenize "PROGRAM A IS BEGIN IF END A")).take (i + 1)) ∧
      ((definedNames ((texts (tokenize "PROGRAM A IS BEGIN IF END A")).take i)).Nodup →
        Viable ((texts (tokenize "PROGRAM A IS BEGIN IF END A")).take i)) ∧
      ∀ found, s.cause.found? = some found →
        found = t.text ∧ ∃ before behind, s.message = before ++ describeText t.text ++ behind := by
  have hrefused : parse "PROGRAM A IS BEGIN IF END A" =
      .error (.malformed ⟨⟨1, 23⟩, .unexpected (.condition .if_) "END"⟩) := by decide +kernel
  exact ⟨hrefused, parse_error_at_first_impossible _ _ hrefused⟩

end BlockLanguage
