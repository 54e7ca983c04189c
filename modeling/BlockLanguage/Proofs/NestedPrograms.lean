import BlockLanguage.Proofs.Nesting

namespace BlockLanguage

/-!
# Programs that are nested too deep

A program is refused as nested too deep behind complete definitions, in the body of one more or
in its own.  So it must be known which words the rules of definitions take.

* `Sentences.programOpenings` — the words that leave as many statements open as may be;
* `Rule.read_define_iff`, `Rule.read_definitions_iff` — the words that are taken as definitions;
* `Rule.dives_definition`, `Rule.dives_program` — the rules of definitions and of programs;
* `Entry.fails_tooDeep_iff` — the rules from the outside.
-/

namespace Sentences

/-- The words that leave as many compound statements open as may be in a definition.  Its name
    may be taken: this is seen behind the body only. -/
def definitionOpenings : Sentences Unit :=
  .word Keyword.instruction.text <| .name fun n => .given (isPrimitive n = false) <|
    .word Keyword.is.text <| blockOpenings nestingLimit

/-- The words that leave as many compound statements open as may be in a program, behind
    complete definitions: in one more, or in the body. -/
def programOpenings : Sentences Unit :=
  .word Keyword.program.text <| .name fun _ => .word Keyword.is.text <|
    .definitionsFrom Context.empty fun _ => .either definitionOpenings <|
      .word Keyword.begin.text <| blockOpenings nestingLimit

end Sentences

variable {α : Type} {D : Sentences Unit} {ts : Tokens}

namespace Rule

/-! ### One definition -/

/-- A check that may fail opens nothing, and nothing is read behind one that does. -/
theorem dives_behind_require {holds : Bool} {position : Position} {cause : Cause}
    {f : Unit → Rule α} {P : Prop} (hcause : cause ≠ .tooDeep) (hP : holds = true ↔ P)
    (hf : (f ()).Dives D) :
    (require holds position cause >>= f).Dives (.given P D) := by
  intro ts
  cases holds with
  | true => exact (hf ts).congr fun _ _ _ _ _ => (and_iff_right (hP.1 rfl)).symm
  | false =>
    refine .of_ne (fun p h => ?_) fun _ _ _ _ _ h => ?_
    · cases h
      exact hcause rfl
    · cases hP.2 h.1

theorem dives_definition : definition.Dives Sentences.definitionOpenings := by
  refine dives_behind_keyword <| dives_behind_identifier fun name _ =>
    dives_behind_require ?_ ?_ <| dives_behind_keyword fun ts =>
    dives_then_shallow (dives_block _ ts) fun body => ?_
  · exact nofun
  · simp
  · exact (shallow_token _ _).bind fun _ => (shallow_closingName _ _ _).bind fun _ =>
      (shallow_checked _).bind fun _ => (shallow_emit _).bind fun _ => shallow_pure _

theorem dives_defined (context : Context) :
    (defined context).Dives Sentences.definitionOpenings := by
  intro ts
  refine dives_then_shallow (dives_definition ts) fun d => Shallow.bind ?_ fun _ => shallow_pure _
  exact shallow_require _ _ nofun

/-- What is defined by the token of a name and a body. -/
def written (d : Token × List Statement) : Definition := ⟨d.1.text, d.2⟩

/-- **One definition by itself.**  The rule takes the words of a definition in order. -/
theorem takes_definition :
    (definition >>= fun d => pure (written d)).Takes Definition.words Definition.WellFormed
      fun _ => True := by
  have hpossible : ∀ d : Definition, d.WellFormed →
      (Sentences.left (fun _ => True) d).Possible := fun d _ => ⟨[], (d, []), rfl, trivial⟩
  have hfollows : (definition >>= fun d => pure (written d)).Follows (.fresh .empty)
      (definitionSentences fun d => .left (fun _ => True) d) fun d =>
        .given d.WellFormed (.left (fun _ => True) d) :=
    (follows_definition hpossible).bind fun d =>
      follows_pure (H := fun d => .given d.WellFormed (.left (fun _ => True) d)) (written d)
  refine hfollows.takes ?_ ?_ (keeps_definition.bind fun _ => keeps_pure _) fun _ _ _ => trivial
  · obtain ⟨n, hn, hown, -⟩ := Context.empty.exists_free_name
    have hd : Definition.WellFormed ⟨n, []⟩ := ⟨hn, hown, Statement.allReadable_nil⟩
    obtain ⟨w, v, h⟩ := hpossible _ hd
    exact ⟨_, v, definitionSentences_iff.2 ⟨_, w, rfl, hd, h⟩⟩
  · intro w d k
    rw [definitionSentences_iff]
    constructor
    · rintro ⟨_, _, rfl, hd, hvalue, -⟩
      obtain ⟨rfl, rfl⟩ := Prod.mk.inj hvalue
      exact ⟨rfl, hd, trivial⟩
    · rintro ⟨rfl, hd, -⟩
      exact ⟨d, k, rfl, hd, rfl, trivial⟩

/-- A definition that has been read is made of its words. -/
theorem words_of_definition {d : Token × List Statement} {rest : Tokens} {events : List Event}
    (h : definition.read ts = ⟨.ok d, rest, events⟩) :
    ∃ used, ts = used ++ rest ∧ texts used = (written d).words ∧ (written d).WellFormed := by
  obtain ⟨used, hts, hwords, hd, -⟩ := (takes_definition ts (written d) rest).1 (by
    rw [read_bind, h]
    exact ⟨rfl, rfl⟩)
  exact ⟨used, hts, hwords, hd⟩

/-- The words of a definition in order are read as this definition. -/
theorem read_definition_of_words {used rest : Tokens} {d : Definition} (hts : ts = used ++ rest)
    (hwords : texts used = d.words) (hd : d.WellFormed) :
    ∃ r events, definition.read ts = ⟨.ok r, rest, events⟩ ∧ written r = d := by
  have h := (takes_definition ts d rest).2 ⟨used, hts, hwords, hd, trivial⟩
  rw [read_bind] at h
  rcases hread : definition.read ts with ⟨e | r, mid, events⟩
  · rw [hread] at h
    cases h.1
  · rw [hread] at h
    obtain ⟨hok, rfl⟩ := h
    exact ⟨r, events, rfl, Except.ok.inj hok⟩

/-- A definition behind others: once it has been read, its name is looked up. -/
theorem read_define {c : Context} {r : Token × List Statement} {mid : Tokens}
    {events : List Event} (hstart : startsWith .instruction ts = true)
    (h : definition.read ts = ⟨.ok r, mid, events⟩) :
    (define c).read ts = ⟨if c.contains r.1.text then
        .error (.onToken r.1.position (.duplicate r.1.text)) else .ok (c.define (written r)),
      mid, events⟩ := by
  have hdefined : (defined c).read ts = (definition >>= fun d =>
      require (!c.contains d.1.text) d.1.position (.duplicate d.1.text) >>= fun _ =>
      pure (c.define (written d))).read ts := rfl
  simp only [define, if_pos hstart]
  rw [hdefined, read_bind, h]
  cases hname : c.contains r.1.text with
  | true =>
    have htaken : (!c.contains r.1.text) = false := by rw [hname, Bool.not_true]
    simp [read_require_bind_of_false htaken]
  | false =>
    have hfree : (!c.contains r.1.text) = true := by rw [hname, Bool.not_false]
    simp [require_bind_of_true hfree]

/-- The words of a definition begin it. -/
theorem startsWith_of_words {used rest : Tokens} {d : Definition} (hwords : texts used = d.words) :
    startsWith .instruction (used ++ rest) = true := by
  rw [startsWith_iff, texts_append, hwords]
  rfl

/-- **One more definition.**  The rule takes the words of a definition in order whose name is
    free, and adds it to the context. -/
theorem read_define_iff {c c' : Context} {rest : Tokens} :
    ((define c).read ts).outcome = .ok c' ∧ ((define c).read ts).rest = rest ↔
      ∃ used, ∃ d : Definition, ts = used ++ rest ∧ texts used = d.words ∧ d.WellFormed ∧
        c.contains d.name = false ∧ c' = c.define d := by
  constructor
  · rintro ⟨hok, rfl⟩
    cases hstart : startsWith .instruction ts with
    | false =>
      simp only [define, hstart] at hok
      cases ts <;> cases hok
    | true =>
      rcases hr : definition.read ts with ⟨e | r, mid, events⟩
      · simp only [define, if_pos hstart, defined, read_bind, hr] at hok
        cases hok
      · obtain ⟨used, hts, hwords, hd⟩ := words_of_definition hr
        rw [read_define hstart hr] at hok ⊢
        cases hfree : c.contains r.1.text with
        | true => simp [hfree] at hok
        | false =>
          simp only [hfree] at hok
          exact ⟨used, written r, hts, hwords, hd, hfree, (Except.ok.inj hok).symm⟩
  · rintro ⟨used, d, rfl, hwords, hd, hfree, rfl⟩
    obtain ⟨r, events, hr, rfl⟩ := read_definition_of_words rfl hwords hd
    have hname : c.contains r.1.text = false := hfree
    rw [read_define (startsWith_of_words hwords) hr]
    simp [hname]

theorem dives_define (c : Context) :
    ((define c).read ts).Dives Sentences.definitionOpenings ts := by
  simp only [define]
  split
  · exact dives_defined c ts
  · next hstart =>
    have hshallow : (failAtFront .definition (.unexpected .definition) : Rule Context).Shallow :=
      shallow_failAtFront .definition fun _ => by simp
    refine .of_ne (hshallow ts) fun used t more hts _ h => hstart (startsWith_iff.2 ?_)
    rw [hts, texts_append, List.head?_append, Sentences.head?_of_word h]
    rfl

theorem head_of_definitions {c : Context} {w : List String}
    (h : Sentences.definitionsFrom c (fun _ => Sentences.definitionOpenings) w ()) :
    w.head? = some Keyword.instruction.text := by
  rcases Sentences.definitionsFrom_cases h with h | ⟨d, k, rfl, -⟩
  · exact Sentences.head?_of_word h
  · rfl

/-- **Definitions behind each other.** -/
theorem dives_definitions (c : Context) :
    ((iterate (startsWith .begin) define progresses_define c).read ts).Dives
      (.definitionsFrom c fun _ => Sentences.definitionOpenings) ts := by
  -- The number of tokens left bounds the repetition; the names that are taken grow with it.
  induction hn : ts.length using Nat.strongRecOn generalizing c ts with
  | ind n ih =>
    cases hbegin : startsWith .begin ts with
    | true =>
      rw [read_iterate_stop hbegin]
      refine .of_ne (fun _ => nofun) fun used t more hts _ h => ?_
      have hhead := startsWith_iff.1 hbegin
      rw [hts, texts_append, List.head?_append, head_of_definitions h] at hhead
      exact absurd (Option.some.inj hhead) (by decide)
    | false =>
      rw [read_iterate_step hbegin]
      refine Reading.Dives.bind (keeps_define c) (dives_define c)
        (E := fun c => .definitionsFrom c fun _ => Sentences.definitionOpenings) ?_ ?_
      · intro c' hc'
        exact ih _ (hn ▸ progresses_define c ts c' hc') c' rfl
      · intro used t more hts ht
        constructor
        · intro h
          rcases Sentences.definitionsFrom_cases h with h | ⟨d, k, hwords, hd, hfree, hk⟩
          · exact .inl h
          · obtain ⟨u, v, rfl, hu, rfl⟩ := List.map_eq_append_iff.1 hwords
            rw [List.append_assoc] at hts
            have hread := read_define_iff.2 ⟨u, d, hts, hu, hd, hfree, rfl⟩
            exact .inr ⟨c.define d, u, v, rfl, hread, hk⟩
        · rintro (h | ⟨c', u, v, rfl, hread, hv⟩)
          · exact Sentences.definitionsFrom_of_behind h
          · obtain ⟨u', d, hu', hwords, hd, hfree, rfl⟩ := read_define_iff.1 hread
            rw [hts, ← List.append_assoc] at hu'
            obtain rfl : u = u' := List.append_cancel_right (List.append_cancel_right hu')
            rw [texts_append, hwords]
            exact Sentences.definitionsFrom_cons hd hfree hv

/-- **Definitions up to a body.**  The rule takes the words of definitions that the context
    admits, where a body begins behind them. -/
theorem read_definitions_iff {c c' : Context} {rest : Tokens} :
    (((iterate (startsWith .begin) define progresses_define c).read ts).outcome = .ok c' ∧
      ((iterate (startsWith .begin) define progresses_define c).read ts).rest = rest) ↔
      ∃ used ds, ts = used ++ rest ∧ texts used = ds.flatMap Definition.words ∧ c.Admits ds ∧
        c' = c.extend ds ∧ startsWith .begin rest = true := by
  -- The number of tokens left bounds the repetition; the names that are taken grow with it.
  induction hn : ts.length using Nat.strongRecOn generalizing c ts with
  | ind n ih =>
    cases hbegin : startsWith .begin ts with
    | true =>
      rw [read_iterate_stop hbegin]
      constructor
      · rintro ⟨hok, rfl⟩
        exact ⟨[], [], rfl, rfl, trivial, (Except.ok.inj hok).symm, hbegin⟩
      · rintro ⟨used, ds, rfl, hwords, -, rfl, -⟩
        cases ds with
        | nil =>
          obtain rfl : used = [] := List.map_eq_nil_iff.1 hwords
          exact ⟨rfl, rfl⟩
        | cons d ds =>
          have hhead := startsWith_iff.1 hbegin
          rw [texts_append, hwords] at hhead
          exact absurd (Option.some.inj hhead) (by decide)
    | false =>
      rw [read_iterate_step hbegin, read_bind]
      have hdefine := @read_define_iff ts c
      have hprogress := progresses_define c ts
      constructor
      · rintro ⟨hok, hrest⟩
        generalize (define c).read ts = first at hok hrest hdefine hprogress
        obtain ⟨e | c₁, mid, events⟩ := first
        · cases hok
        · obtain ⟨u, d, rfl, hu, hd, hfree, rfl⟩ := hdefine.1 ⟨rfl, rfl⟩
          obtain ⟨v, ds, rfl, hv, hds, hc, hstop⟩ :=
            (ih _ (hn ▸ hprogress _ rfl) (c := c.define d) rfl).1 ⟨hok, hrest⟩
          refine ⟨u ++ v, d :: ds, (List.append_assoc ..).symm, ?_, ⟨hd, hfree, hds⟩, hc, hstop⟩
          rw [texts_append, hu, hv, List.flatMap_cons]
      · rintro ⟨used, ds, hts, hwords, hds, rfl, hstop⟩
        cases ds with
        | nil =>
          obtain rfl : used = [] := List.map_eq_nil_iff.1 hwords
          rw [hts, List.nil_append, hstop] at hbegin
          cases hbegin
        | cons d ds =>
          obtain ⟨hd, hfree, hds⟩ := hds
          rw [List.flatMap_cons] at hwords
          obtain ⟨u, v, rfl, hu, hv⟩ := List.map_eq_append_iff.1 hwords
          rw [List.append_assoc] at hts
          obtain ⟨hok, hmid⟩ := hdefine.2 ⟨u, d, hts, hu, hd, hfree, rfl⟩
          generalize (define c).read ts = first at hok hmid hprogress
          obtain ⟨_, mid, events⟩ := first
          cases hok
          cases hmid
          exact (ih _ (hn ▸ hprogress _ rfl) (c := c.define d) rfl).2
            ⟨v, ds, rfl, hv, hds, rfl, hstop⟩

/-- **Programs** are refused as nested too deep in the body of a definition, or in their own. -/
theorem dives_program : program.Dives Sentences.programOpenings := by
  refine dives_behind_keyword <| dives_behind_identifier fun name _ =>
    dives_behind_keyword fun ts => ?_
  refine Reading.Dives.bind (keeps_iterate keeps_define _) (dives_definitions _)
    (E := fun _ => .word Keyword.begin.text <| Sentences.blockOpenings nestingLimit) ?_ ?_
  · intro context _
    have hbody : (block nestingLimit).Dives (Sentences.blockOpenings nestingLimit) :=
      dives_block _
    refine dives_behind_keyword (fun ts => dives_then_shallow (hbody ts) fun body => ?_) _
    exact (shallow_token _ _).bind fun _ => (shallow_closingName _ _ _).bind fun _ =>
      shallow_endOfInput.bind fun _ => (shallow_emit _).bind fun _ => (shallow_checked _).bind
      fun _ => (shallow_checked _).bind fun _ => (shallow_checked _).bind fun _ => shallow_pure _
  · intro used t more hts ht
    constructor
    · rintro ⟨ds, k, hwords, hds, hk | ⟨k, rfl, hk⟩⟩
      · exact .inl ⟨ds, k, hwords, hds, hk⟩
      · obtain ⟨u, v, rfl, hu, hv⟩ := List.map_eq_append_iff.1 hwords
        rw [List.append_assoc] at hts
        refine .inr ⟨_, u, v, rfl, read_definitions_iff.2 ⟨u, ds, hts, hu, hds, rfl, ?_⟩, k, hv, hk⟩
        rw [startsWith_iff, texts_append]
        exact congrArg (fun w => (w ++ texts (t :: more)).head?) hv
    · rintro (⟨ds, k, hwords, hds, hk⟩ | ⟨c, u, v, rfl, hread, hv⟩)
      · exact ⟨ds, k, hwords, hds, .inl hk⟩
      · obtain ⟨u', ds, hu', hwords, hds, -, -⟩ := read_definitions_iff.1 hread
        rw [hts, ← List.append_assoc] at hu'
        obtain rfl : u = u' := List.append_cancel_right (List.append_cancel_right hu')
        exact ⟨ds, texts v, by rw [texts_append, hwords], hds, .inr hv⟩

/-! ### From the outside -/

/-- From the outside the answer is the same, with its place. -/
theorem outcome_run_tooDeep {r : Rule α} {p : Position} :
    (r.run ts).outcome = .error (.malformed ⟨p, .tooDeep⟩) ↔
      (r.read ts).outcome = .error (.onToken p .tooDeep) := by
  show (r.read ts).outcome.mapError (located ts) = _ ↔ _
  cases (r.read ts).outcome with
  | ok a => exact ⟨nofun, nofun⟩
  | error f =>
    constructor
    · intro h
      have hlocated : located ts f = .malformed ⟨p, .tooDeep⟩ := Except.error.inj h
      cases f with
      | onToken q cause =>
        cases hlocated
        rfl
      | pastLast expected => cases hlocated
      | refused v => cases hlocated
    · intro h
      cases h
      rfl

theorem Dives.run {r : Rule α} (h : r.Dives D) (ts : Tokens) (p : Position) (rest : Tokens) :
    ((r.run ts).outcome = .error (.malformed ⟨p, .tooDeep⟩) ∧ (r.run ts).rest = rest) ↔
      ∃ used t more, ts = used ++ t :: more ∧ D (texts used) () ∧ Compound t.text ∧
        p = t.position ∧ rest = t :: more :=
  (and_congr outcome_run_tooDeep Iff.rfl).trans (h ts p rest)

end Rule

namespace Entry

/-- The words that leave as many compound statements open as may be. -/
def openings : Entry → Sentences Unit
  | statement => Sentences.openings nestingLimit
  | block => Sentences.blockOpenings nestingLimit
  | program => Sentences.programOpenings

/-- **Nested too deep.**  Tokens are refused so exactly behind words that leave as many compound
    statements open as may be, at a token that would open one more; this one is left. -/
theorem fails_tooDeep_iff (e : Entry) (ts : Tokens) (p : Position) (rest : Tokens) :
    (e.Fails ts (.malformed ⟨p, .tooDeep⟩) ∧ e.rest ts = rest) ↔
      ∃ used t more, ts = used ++ t :: more ∧ e.openings (texts used) () ∧ Compound t.text ∧
        p = t.position ∧ rest = t :: more := by
  cases e with
  | statement => exact (Rule.dives_statement nestingLimit).run ts p rest
  | block =>
    have hblock : (Statement.block <$> Rule.block nestingLimit).Dives
        (Sentences.blockOpenings nestingLimit) := fun ts =>
      Rule.dives_then_shallow (Rule.dives_block nestingLimit ts) fun _ => Rule.shallow_pure _
    exact hblock.run ts p rest
  | program => exact Rule.dives_program.run ts p rest

end Entry

end BlockLanguage
