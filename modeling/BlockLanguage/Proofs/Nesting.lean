import BlockLanguage.Proofs.Exactness
import BlockLanguage.Proofs.Faults

namespace BlockLanguage

/-!
# Where nothing more may be opened

A statement under a budget is refused as nested too deep exactly if its tokens begin with words
that leave as many branches and loops open, up to a place where a statement may begin, and the
token there would open one more.  The words are described like those of complete statements.

* `Compound`, `Sentences.openings` — words that open statements, and words that leave a number
  of them open;
* `Reading.Dives`, `Rule.Dives` — one answer, and all answers of a rule;
* `Reading.Dives.bind`, `Rule.dives_then_shallow` — rules behind each other;
* `Rule.dives_behind_token`, `Rule.dives_behind` — behind a token, and behind statements;
* `Rule.dives_statement`, `Rule.dives_block` — the rules under a budget.
-/

/-! ### Words that leave statements open -/

/-- The words that open a compound statement. -/
def Compound (x : String) : Prop := x = Keyword.while_.text ∨ x = Keyword.if_.text

instance (x : String) : Decidable (Compound x) := inferInstanceAs (Decidable (_ ∨ _))

namespace Sentences

/-- The words that leave `n` compound statements open inside each other, up to a place where
    a statement may begin.  What is complete on the way is readable where it stands. -/
def openings : Nat → Sentences Unit
  | 0 => .done ()
  | n + 1 => .either
    (.word Keyword.while_.text <| .condition fun _ => .word Keyword.do_.text <|
      .statements n fun _ => openings n)
    (.word Keyword.if_.text <| .condition fun _ => .word Keyword.then_.text <|
      .statements n fun _ => .either (openings n) <|
        .word Keyword.else_.text <| .statements n fun _ => openings n)

/-- The words that leave `n` compound statements open in a block. -/
def blockOpenings (n : Nat) : Sentences Unit := .statements n fun _ => openings n

theorem opens_of_compound {x : String} (h : Compound x) : Statement.Opens x := by
  rcases h with rfl | rfl
  · exact .inr (.inl rfl)
  · exact .inl rfl

/-- In front of a word that opens a statement, what is written begins with such a word. -/
theorem head_of_openings {n : Nat} {w : List String} {x : String} (h : openings n w ())
    (hx : Compound x) (k : List String) : ∃ y, (w ++ x :: k).head? = some y ∧ Compound y := by
  cases n with
  | zero =>
    obtain ⟨rfl, -⟩ := h
    exact ⟨x, rfl, hx⟩
  | succ n =>
    rcases h with ⟨_, rfl, -⟩ | ⟨_, rfl, -⟩
    · exact ⟨_, rfl, .inl rfl⟩
    · exact ⟨_, rfl, .inr rfl⟩

/-- In front of a word that opens a statement, what is written in a block begins with the first
    word of some statement. -/
theorem head_of_blockOpenings {n : Nat} {w : List String} {x : String} (h : blockOpenings n w ())
    (hx : Compound x) (k : List String) :
    ∃ y, (w ++ x :: k).head? = some y ∧ Statement.Opens y := by
  obtain ⟨ss, v, rfl, hss, hv⟩ := h
  cases ss with
  | nil =>
    obtain ⟨y, hy, hcompound⟩ := head_of_openings hv hx k
    exact ⟨y, hy, opens_of_compound hcompound⟩
  | cons s ss =>
    obtain ⟨y, others, hs, hopens⟩ := Statement.head_words (Statement.allReadable_cons.1 hss).1
    exact ⟨y, by simp [Statement.wordsOf, hs], hopens⟩

/-- In a block the next statement is left open, or is complete and others come behind it. -/
theorem blockOpenings_iff {n : Nat} {w : List String} : blockOpenings n w () ↔
    openings n w () ∨ ∃ s k, w = Statement.words s ++ k ∧ s.Readable n ∧ blockOpenings n k () := by
  constructor
  · rintro ⟨ss, k, rfl, hss, hk⟩
    cases ss with
    | nil => exact .inl hk
    | cons s ss =>
      obtain ⟨hs, hss⟩ := Statement.allReadable_cons.1 hss
      exact .inr ⟨s, _, by simp [Statement.wordsOf], hs, ss, k, rfl, hss, hk⟩
  · rintro (h | ⟨s, _, rfl, hs, ss, k, rfl, hss, hk⟩)
    · exact ⟨[], w, rfl, Statement.allReadable_nil, h⟩
    · exact ⟨s :: ss, k, by simp [Statement.wordsOf], Statement.allReadable_cons.2 ⟨hs, hss⟩, hk⟩

theorem statements_either {V : Type} {n : Nat} {G H : List Statement → Sentences V}
    {w : List String} {v : V} : statements n (fun ss => either (G ss) (H ss)) w v ↔
      statements n G w v ∨ statements n H w v := by
  constructor
  · rintro ⟨ss, k, rfl, hss, hk | hk⟩
    · exact .inl ⟨ss, k, rfl, hss, hk⟩
    · exact .inr ⟨ss, k, rfl, hss, hk⟩
  · rintro (⟨ss, k, rfl, hss, hk⟩ | ⟨ss, k, rfl, hss, hk⟩)
    · exact ⟨ss, k, rfl, hss, .inl hk⟩
    · exact ⟨ss, k, rfl, hss, .inr hk⟩

end Sentences

/-! ### Answers that nothing more may be opened -/

variable {α β : Type} {D D' E : Sentences Unit} {ts : Tokens}

/-- An answer to `ts` is that nothing more may be opened exactly if words of `D` stand in front
    of a token that would; this token is blamed and left. -/
def Reading.Dives (D : Sentences Unit) (ts : Tokens) (x : Reading Failure α) : Prop :=
  ∀ p rest, (x.outcome = .error (.onToken p .tooDeep) ∧ x.rest = rest) ↔
    ∃ used t more, ts = used ++ t :: more ∧ D (texts used) () ∧ Compound t.text ∧
      p = t.position ∧ rest = t :: more

namespace Reading.Dives

/-- It is enough to know the words that stand in front of a token that opens a statement. -/
theorem congr {x : Reading Failure α} (h : x.Dives D ts)
    (hD : ∀ used t more, ts = used ++ t :: more → Compound t.text →
      (D (texts used) () ↔ D' (texts used) ())) : x.Dives D' ts := by
  intro p rest
  rw [h p rest]
  constructor
  · rintro ⟨used, t, more, hts, hwords, ht, hp, hrest⟩
    exact ⟨used, t, more, hts, (hD used t more hts ht).1 hwords, ht, hp, hrest⟩
  · rintro ⟨used, t, more, hts, hwords, ht, hp, hrest⟩
    exact ⟨used, t, more, hts, (hD used t more hts ht).2 hwords, ht, hp, hrest⟩

/-- Another answer, where no words of `D` stand in front of a token that opens a statement. -/
theorem of_ne {x : Reading Failure α} (hx : ∀ p, x.outcome ≠ .error (.onToken p .tooDeep))
    (hD : ∀ used t more, ts = used ++ t :: more → Compound t.text → ¬ D (texts used) ()) :
    x.Dives D ts := by
  intro p rest
  constructor
  · rintro ⟨h, -⟩
    exact absurd h (hx p)
  · rintro ⟨used, t, more, hts, hwords, ht, -, -⟩
    exact absurd hwords (hD used t more hts ht)

/-- **One rule behind another.**  Words stand in front of a token that is refused by the first
    rule, or by the second one behind what the first has taken. -/
theorem bind {r : Rule α} {f : α → Rule β} {E : α → Sentences Unit} (hkeeps : r.Keeps)
    (hr : (r.read ts).Dives D ts)
    (hf : ∀ a, (r.read ts).outcome = .ok a →
      ((f a).read (r.read ts).rest).Dives (E a) (r.read ts).rest)
    (hD : ∀ used t more, ts = used ++ t :: more → Compound t.text → (D' (texts used) () ↔
      D (texts used) () ∨ ∃ a u v, used = u ++ v ∧ ((r.read ts).outcome = .ok a ∧
        (r.read ts).rest = v ++ t :: more) ∧ E a (texts v) ())) :
    ((r >>= f).read ts).Dives D' ts := by
  obtain ⟨front, hfront⟩ := hkeeps ts
  rw [Rule.read_bind]
  generalize r.read ts = first at hr hf hD hfront
  obtain ⟨e | a, mid, events⟩ := first
  · have hsame : Reading.Dives D ts (⟨.error e, mid, events⟩ : Reading Failure β) := by
      simpa [Reading.Dives] using hr
    refine hsame.congr fun used t more hts ht => ?_
    rw [hD used t more hts ht]
    simp
  · intro p rest
    -- The first rule has succeeded, so no words that it refuses stand there.
    have hnone : ∀ used t more, ts = used ++ t :: more → Compound t.text →
        ¬ D (texts used) () := by
      intro used t more hts ht hwords
      obtain ⟨h, -⟩ := (hr t.position (t :: more)).2 ⟨used, t, more, hts, hwords, ht, rfl, rfl⟩
      cases h
    refine (hf a rfl p rest).trans ⟨?_, ?_⟩
    · rintro ⟨v, t, more, hmid, hwords, ht, hp, hrest⟩
      have hts : ts = (front ++ v) ++ t :: more := by
        rw [List.append_assoc, ← hmid]
        exact hfront.symm
      refine ⟨front ++ v, t, more, hts, (hD _ t more hts ht).2 (.inr ?_), ht, hp, hrest⟩
      exact ⟨a, front, v, rfl, ⟨rfl, hmid⟩, hwords⟩
    · rintro ⟨used, t, more, hts, hwords, ht, hp, hrest⟩
      rcases (hD used t more hts ht).1 hwords with h | ⟨b, u, v, -, ⟨hok, hmid⟩, h⟩
      · exact absurd h (hnone used t more hts ht)
      · obtain rfl := Except.ok.inj hok
        exact ⟨v, t, more, hmid, h, ht, hp, hrest⟩

end Reading.Dives

namespace Rule

/-- The rule answers that nothing more may be opened exactly behind words of `D`. -/
def Dives (r : Rule α) (D : Sentences Unit) : Prop := ∀ ts, (r.read ts).Dives D ts

/-- The rule never answers that nothing more may be opened. -/
def Shallow (r : Rule α) : Prop := ∀ ts p, (r.read ts).outcome ≠ .error (.onToken p .tooDeep)

/-! ### Rules that open nothing -/

theorem Shallow.bind {r : Rule α} {f : α → Rule β} (hr : r.Shallow) (hf : ∀ a, (f a).Shallow) :
    (r >>= f).Shallow := by
  intro ts p
  have hfirst := hr ts p
  rw [read_bind]
  generalize r.read ts = first at hfirst
  obtain ⟨e | a, mid, events⟩ := first
  · rintro ⟨⟩
    exact hfirst rfl
  · exact hf a mid p

theorem shallow_pure (a : α) : (pure a : Rule α).Shallow := fun _ _ => nofun

theorem shallow_emit (event : Event) : (emit event).Shallow := fun _ _ => nofun

theorem shallow_checked (answer : Except Violation α) : (checked answer).Shallow := by
  intro ts p
  cases answer with
  | ok a => exact nofun
  | error v => exact nofun

theorem shallow_require (holds : Bool) (position : Position) {cause : Cause}
    (h : cause ≠ .tooDeep) : (require holds position cause).Shallow := by
  intro ts p
  cases holds with
  | true => exact nofun
  | false =>
    intro heq
    cases heq
    exact h rfl

theorem shallow_failAtFront (expected : Expected) {cause : String → Cause}
    (h : ∀ x, cause x ≠ .tooDeep) : (failAtFront expected cause : Rule α).Shallow := by
  rintro (_ | ⟨t, ts⟩) p heq
  · cases heq
  · exact h t.text (Failure.onToken.inj (Except.error.inj heq)).2

theorem shallow_token (expected : Expected) (accept : Token → Option α) :
    (token expected accept).Shallow := by
  rintro (_ | ⟨t, ts⟩) p
  · exact nofun
  · cases hval : accept t with
    | some a =>
      rw [read_token_some expected hval]
      exact nofun
    | none =>
      rw [read_token_none expected hval]
      exact nofun

theorem shallow_closing (k : Keyword) : (closing k).Shallow :=
  (shallow_token _ _).bind fun _ => shallow_token _ _

theorem shallow_closingName (of : Section) (role : Role) (opening : Token) :
    (closingName of role opening).Shallow :=
  (shallow_token _ _).bind fun _ => shallow_require _ _ nofun

theorem shallow_endOfInput : endOfInput.Shallow := by
  refine (shallow_token _ _).bind fun _ => ?_
  rintro (_ | ⟨t, ts⟩) p
  · exact nofun
  · exact nofun

/-- What is read behind opens nothing. -/
theorem dives_then_shallow {r : Rule α} {f : α → Rule β} (hr : (r.read ts).Dives D ts)
    (hf : ∀ a, (f a).Shallow) : ((r >>= f).read ts).Dives D ts := by
  intro p rest
  rw [← hr p rest, read_bind]
  generalize r.read ts = first
  obtain ⟨e | a, mid, events⟩ := first
  · simp
  · constructor
    · rintro ⟨h, -⟩
      exact absurd h (hf a mid p)
    · rintro ⟨h, -⟩
      cases h

/-! ### Behind one token -/

/-- **Behind a token.**  The token in front is one that has a value. -/
theorem dives_behind_token {expected : Expected} {accept : Token → Option α} {f : α → Rule β}
    {E : String → Sentences Unit} (hnil : ¬ D [] ()) (hcons : ∀ x w, D (x :: w) () ↔ E x w ())
    (hsome : ∀ t a, accept t = some a → (f a).Dives (E t.text))
    (hnone : ∀ t, accept t = none → ∀ w, ¬ E t.text w ()) :
    (token expected accept >>= f).Dives D := by
  rintro (_ | ⟨t, ts⟩)
  · refine .of_ne (fun _ => nofun) fun used u more hts => ?_
    simp at hts
  · have hfront : ∀ {used u more}, t :: ts = used ++ u :: more → D (texts used) () →
        ∃ v, used = t :: v ∧ ts = v ++ u :: more ∧ E t.text (texts v) () := by
      intro used u more hts hwords
      cases used with
      | nil => exact absurd hwords hnil
      | cons s v =>
        obtain ⟨rfl, hbehind⟩ := List.cons.inj hts
        exact ⟨v, rfl, hbehind, (hcons _ _).1 hwords⟩
    cases hval : accept t with
    | none =>
      refine .of_ne ?_ fun used u more hts _ hwords => ?_
      · rw [read_bind, read_token_none expected hval]
        exact fun _ => nofun
      · obtain ⟨v, -, -, h⟩ := hfront hts hwords
        exact hnone t hval _ h
    | some a =>
      intro p rest
      have hread : (token expected accept >>= f).read (t :: ts) = (f a).read ts := by
        rw [read_bind, read_token_some expected hval]
        rfl
      rw [hread, hsome t a hval ts p rest]
      constructor
      · rintro ⟨used, u, more, rfl, hwords, h⟩
        exact ⟨t :: used, u, more, rfl, (hcons _ _).2 hwords, h⟩
      · rintro ⟨used, u, more, hts, hwords, h⟩
        obtain ⟨v, -, rfl, hv⟩ := hfront hts hwords
        exact ⟨v, u, more, rfl, hv, h⟩

theorem dives_behind_keyword {k : Keyword} {f : Unit → Rule α} (hf : (f ()).Dives D) :
    (keyword k >>= f).Dives (.word k.text D) := by
  refine dives_behind_token (E := fun x => .given (x = k.text) D) (by simp [Sentences.word])
    (fun x w => ?_) (fun t _ ht => ?_) fun t ht w h => ?_
  · constructor
    · rintro ⟨_, h, hw⟩
      obtain ⟨rfl, rfl⟩ := List.cons.inj h
      exact ⟨rfl, hw⟩
    · rintro ⟨rfl, hw⟩
      exact ⟨w, rfl, hw⟩
  · split at ht
    · next htext =>
      intro ts
      exact (hf ts).congr fun _ _ _ _ _ => (and_iff_right htext).symm
    · cases ht
  · obtain ⟨htext, -⟩ := h
    rw [if_pos htext] at ht
    cases ht

theorem dives_behind_condition {after : Keyword} {f : Condition → Rule α}
    (hf : ∀ c, (f c).Dives D) : (condition after >>= f).Dives (.condition fun _ => D) := by
  rw [condition_eq]
  refine dives_behind_token (E := fun x => .given (∃ c : Condition, c.text = x) D)
    (by simp [Sentences.condition]) (fun x w => ?_) (fun t c ht => ?_) fun t ht w h => ?_
  · constructor
    · rintro ⟨c, _, h, hw⟩
      obtain ⟨rfl, rfl⟩ := List.cons.inj h
      exact ⟨⟨c, rfl⟩, hw⟩
    · rintro ⟨⟨c, rfl⟩, hw⟩
      exact ⟨c, w, rfl, hw⟩
  · have htext : ∃ c : Condition, c.text = t.text := ⟨c, Condition.ofText?_eq_some_iff.1 ht⟩
    intro ts
    exact (hf c ts).congr fun _ _ _ _ _ => (and_iff_right htext).symm
  · obtain ⟨⟨c, hc⟩, -⟩ := h
    rw [Condition.ofText?_eq_some_iff.2 hc] at ht
    cases ht

theorem dives_behind_identifier {role : Role} {f : Token → Rule α} {G : String → Sentences Unit}
    (hf : ∀ t, isIdentifier t.text = true → (f t).Dives (G t.text)) :
    (identifier role >>= f).Dives (.name G) := by
  refine dives_behind_token (E := fun x => .given (isIdentifier x = true) (G x))
    (by simp [Sentences.name]) (fun x w => ?_) (fun t u ht => ?_) fun t ht w h => ?_
  · constructor
    · rintro ⟨n, _, h, hn, hw⟩
      obtain ⟨rfl, rfl⟩ := List.cons.inj h
      exact ⟨hn, hw⟩
    · rintro ⟨hn, hw⟩
      exact ⟨x, w, rfl, hn, hw⟩
  · split at ht
    · next hname =>
      obtain rfl := Option.some.inj ht
      intro ts
      exact (hf t hname ts).congr fun _ _ _ _ _ => (and_iff_right hname).symm
    · cases ht
  · obtain ⟨hname, -⟩ := h
    rw [if_pos hname] at ht
    cases ht

/-! ### Behind statements and blocks -/

/-- A rule of statements, or of blocks of them, under a budget: what it takes is known, and
    behind what words it answers that nothing more may be opened. -/
theorem dives_behind {r : Rule α} {f : α → Rule β} {words : α → List String} {good : α → Prop}
    {ends : List String → Prop} {E : α → Sentences Unit} (htakes : r.Takes words good ends)
    (hkeeps : r.Keeps) (hr : (r.read ts).Dives D ts)
    (hf : ∀ a, (r.read ts).outcome = .ok a →
      ((f a).read (r.read ts).rest).Dives (E a) (r.read ts).rest)
    (hends : ∀ a v x w, E a v () → Compound x → ends (v ++ x :: w)) :
    ((r >>= f).read ts).Dives
      (.either D fun w _ => ∃ a k, w = words a ++ k ∧ good a ∧ E a k ()) ts := by
  refine Reading.Dives.bind hkeeps hr hf fun used t more hts ht => or_congr_right ⟨?_, ?_⟩
  · rintro ⟨a, k, hwords, hgood, hk⟩
    obtain ⟨u, v, rfl, hu, rfl⟩ := List.map_eq_append_iff.1 hwords
    refine ⟨a, u, v, rfl, (htakes ts a _).2 ⟨u, ?_, hu, hgood, ?_⟩, hk⟩
    · rw [hts, List.append_assoc]
    · rw [texts_append, texts_cons]
      exact hends a _ _ _ hk ht
  · rintro ⟨a, u, v, rfl, hok, hv⟩
    obtain ⟨u', hu', hwords, hgood, -⟩ := (htakes ts a _).1 hok
    rw [hts, ← List.append_assoc] at hu'
    obtain rfl : u = u' := List.append_cancel_right (List.append_cancel_right hu')
    exact ⟨a, texts v, by rw [texts_append, hwords], hgood, hv⟩

/-- What comes behind a block does not open anything in front of a word that does not close
    it. -/
theorem dives_blockOf {budget : Nat} {item : Rule Statement} {progress : item.Progresses}
    (htakes : item.Takes Statement.words (Statement.Readable budget) fun _ => True)
    (hkeeps : item.Keeps) (hitem : item.Dives (Sentences.openings budget)) :
    (blockOf item progress).Dives (Sentences.blockOpenings budget) := by
  intro ts
  -- The number of tokens left bounds the repetition.
  induction hn : ts.length using Nat.strongRecOn generalizing ts with
  | ind n ih =>
    cases hstop : atBlockEnd ts with
    | true =>
      rw [read_blockOf_end hstop]
      refine .of_ne (fun _ => nofun) fun used t more hts ht h => ?_
      obtain ⟨y, hy, hopens⟩ := Sentences.head_of_blockOpenings h ht (texts more)
      rw [← texts_cons, ← texts_append, ← hts] at hy
      exact not_closes_of_opens hopens (atBlockEnd_iff.1 hstop y hy)
    | false =>
      rw [read_blockOf_step hstop]
      have hstep := dives_behind (f := fun s => blockOf item progress >>= fun ss => pure (s :: ss))
        (E := fun _ => Sentences.blockOpenings budget) htakes hkeeps (hitem ts) ?_
        fun _ _ _ _ _ _ => trivial
      · exact hstep.congr fun used t more _ _ => Sentences.blockOpenings_iff.symm
      · intro s hs
        have hlt : (item.read ts).rest.length < n := hn ▸ progress ts s hs
        exact dives_then_shallow (ih _ hlt (item.read ts).rest rfl) fun _ => shallow_pure _

/-! ### Statements under a budget -/

theorem dives_loop {inner : Rule (List Statement)} (hinner : inner.Dives D) :
    (loop inner).Dives (.word Keyword.while_.text <| .condition fun _ =>
      .word Keyword.do_.text D) := by
  refine dives_behind_keyword <| dives_behind_condition fun c => dives_behind_keyword fun ts =>
    dives_then_shallow (hinner ts) fun body => ?_
  exact (shallow_closing _).bind fun _ => shallow_checked _

/-- Behind the first body only an alternative can open anything. -/
theorem dives_branchEnd {inner : Rule (List Statement)} (hinner : inner.Dives D) (c : Condition)
    (thenBody : List Statement) :
    (lookAhead (startsWith .else_) >>= branchEnd inner c thenBody).Dives
      (.word Keyword.else_.text D) := by
  intro ts
  have hread : (lookAhead (startsWith .else_) >>= branchEnd inner c thenBody).read ts =
      (branchEnd inner c thenBody (startsWith .else_ ts)).read ts := rfl
  rw [hread]
  cases helse : startsWith .else_ ts with
  | true =>
    have hbody : (branchEnd inner c thenBody true).Dives (.word Keyword.else_.text D) := by
      refine dives_behind_keyword fun ts => dives_then_shallow (hinner ts) fun body => ?_
      exact (shallow_closing _).bind fun _ => shallow_checked _
    exact hbody ts
  | false =>
    have hshallow : (branchEnd inner c thenBody false).Shallow :=
      (shallow_closing _).bind fun _ => shallow_checked _
    refine .of_ne (hshallow ts) fun used t more hts _ h => ?_
    have hhead : (texts ts).head? = some Keyword.else_.text := by
      rw [hts, texts_append, List.head?_append, Sentences.head?_of_word h]
      rfl
    rw [startsWith_iff.2 hhead] at helse
    cases helse

theorem dives_branch {budget : Nat}
    (hinner : (block budget).Dives (Sentences.blockOpenings budget)) :
    (branch (block budget)).Dives (.word Keyword.if_.text <| .condition fun _ =>
      .word Keyword.then_.text <| .statements budget fun _ => .either
        (Sentences.openings budget)
        (.word Keyword.else_.text <| Sentences.blockOpenings budget)) := by
  refine dives_behind_keyword <| dives_behind_condition fun c => dives_behind_keyword fun ts => ?_
  have hbodies := dives_behind (f := fun body => lookAhead (startsWith .else_) >>=
      branchEnd (block budget) c body)
    (E := fun _ => .word Keyword.else_.text <| Sentences.blockOpenings budget)
    (takes_block budget) (keeps_block budget) (hinner ts)
    (fun body _ => dives_branchEnd hinner c body _) ?_
  · exact hbodies.congr fun used t more _ _ => Sentences.statements_either.symm
  · rintro _ _ x w ⟨k, rfl, -⟩ - y hy
    obtain rfl := Option.some.inj hy
    exact .inr (.inl rfl)

/-- Where no word opens a statement, none is refused. -/
theorem dives_of_not_compound {budget : Nat} {x : Reading Failure α}
    (hx : ∀ p, x.outcome ≠ .error (.onToken p .tooDeep))
    (hts : ∀ y, (texts ts).head? = some y → ¬ Compound y) :
    x.Dives (Sentences.openings budget) ts := by
  refine .of_ne hx fun used t more heq ht h => ?_
  obtain ⟨y, hy, hcompound⟩ := Sentences.head_of_openings h ht (texts more)
  rw [← texts_cons, ← texts_append, ← heq] at hy
  exact hts y hy hcompound

/-- A compound statement that may not be opened is refused at its first word. -/
theorem dives_refused {k : Keyword} (hk : Compound k.text) (hts : startsWith k ts = true) :
    ((failAtFront .statement fun _ => .tooDeep : Rule α).read ts).Dives
      (Sentences.openings 0) ts := by
  cases ts with
  | nil => cases hts
  | cons t more =>
    have ht : t.text = k.text := by simpa [startsWith] using hts
    intro p rest
    constructor
    · rintro ⟨h, rfl⟩
      cases h
      exact ⟨[], t, more, rfl, ⟨rfl, rfl⟩, ht ▸ hk, rfl, rfl⟩
    · rintro ⟨used, u, others, hts, ⟨hused, -⟩, -, rfl, rfl⟩
      obtain rfl : used = [] := List.map_eq_nil_iff.1 hused
      obtain ⟨rfl, rfl⟩ := List.cons.inj hts
      exact ⟨rfl, rfl⟩

/-- The words of the kind of statement that the next token selects are the ones that matter. -/
theorem dives_selected_kind {k l : Keyword} (hne : k.text ≠ l.text) {x : Reading Failure α}
    (hts : startsWith k ts = true) (hx : x.Dives (.word k.text D) ts) :
    x.Dives (.either (.word k.text D) (.word l.text E)) ts := by
  refine hx.congr fun used t more heq _ => ⟨.inl, ?_⟩
  rintro (h | h)
  · exact h
  · have hhead := startsWith_iff.1 hts
    rw [heq, texts_append, List.head?_append, Sentences.head?_of_word h] at hhead
    exact absurd (Option.some.inj hhead).symm hne

/-- A call opens nothing, and neither does what is no statement. -/
theorem dives_selected_other {budget : Nat} (hwhile : ¬ startsWith .while_ ts = true)
    (hif : ¬ startsWith .if_ ts = true) :
    (if startsWithName ts then call.read ts
      else (failAtFront .statement (.unexpected .statement)).read ts).Dives
      (Sentences.openings budget) ts := by
  apply dives_of_not_compound
  · have hcall : call.Shallow := (shallow_token _ _).bind fun _ => shallow_pure _
    intro p
    split
    · exact hcall ts p
    · exact shallow_failAtFront .statement (fun _ => by simp) ts p
  · rintro y hy (rfl | rfl)
    · exact hwhile (startsWith_iff.2 hy)
    · exact hif (startsWith_iff.2 hy)

theorem dives_selected_none : (selected none).Dives (Sentences.openings 0) := by
  intro ts
  simp only [selected]
  split
  · next hwhile => exact dives_refused (.inl rfl) hwhile
  · next hwhile =>
    split
    · next hif => exact dives_refused (.inr rfl) hif
    · next hif => exact dives_selected_other hwhile hif

theorem dives_selected_some {budget : Nat}
    (hinner : (block budget).Dives (Sentences.blockOpenings budget)) :
    (selected (some (block budget))).Dives (Sentences.openings (budget + 1)) := by
  intro ts
  simp only [selected]
  split
  · next hwhile => exact dives_selected_kind (by decide) hwhile (dives_loop hinner ts)
  · next hwhile =>
    split
    · next hif =>
      exact (dives_selected_kind (by decide) hif (dives_branch hinner ts)).congr
        fun _ _ _ _ _ => or_comm
    · next hif => exact dives_selected_other hwhile hif

theorem dives_statementOver {inner : Option (Rule (List Statement))}
    (h : (selected inner).Dives D) : (statementOver inner).Dives D := fun ts =>
  dives_then_shallow (h ts) fun _ => (shallow_emit _).bind fun _ => shallow_pure _

/-- **Statements under a budget** are refused as nested too deep behind words that leave as many
    open. -/
theorem dives_statement (budget : Nat) : (statement budget).Dives (Sentences.openings budget) := by
  induction budget with
  | zero => exact dives_statementOver dives_selected_none
  | succ budget ih =>
    rw [statement_succ]
    exact dives_statementOver <| dives_selected_some <|
      dives_blockOf (takes_statement budget) (keeps_statement budget) ih

/-- **Blocks under a budget.** -/
theorem dives_block (budget : Nat) : (block budget).Dives (Sentences.blockOpenings budget) :=
  dives_blockOf (takes_statement budget) (keeps_statement budget) (dives_statement budget)

end Rule

end BlockLanguage
