import BlockLanguage.Proofs.ByteOrder
import BlockLanguage.Proofs.Flatten
import Mathlib.Data.List.Perm.Basic

namespace BlockLanguage

/-!
# Definitions in another order

The tokens of a program fall into its head, one segment for each definition, and its body,
and the words that begin these parts show where.  The segments can stand in any order: the
program that is read is the same.  Written again, its definitions are in the order of the
bytes of their names.

* `BeginsPart`, `Part`, `Parts` — where the tokens of a program are cut;
* `Parts.unique` — there is one way to cut them;
* `Draft.WellFormed.exists_parts` — the segments of a draft are its definitions;
* `Draft.WellFormed.rearranged` — the draft with its definitions in another order;
* `Line.definedName?`, `Program.definedNames_lines` — the lines that name definitions;
* `parseProgram_rearranges` — segments in another order, and the order in which definitions
  are written.
-/

/-! ### Parts of a program -/

/-- The words that begin a definition or the body of a program. -/
def BeginsPart (x : String) : Prop := x = Keyword.instruction.text ∨ x = Keyword.begin.text

instance (x : String) : Decidable (BeginsPart x) := inferInstanceAs (Decidable (_ ∨ _))

/-- Tokens that `k` begins, and behind it none that begins another part. -/
def Part (k : Keyword) (ts : Tokens) : Prop :=
  ∃ t us, ts = t :: us ∧ t.text = k.text ∧ ∀ u ∈ us, ¬ BeginsPart u.text

/-- The tokens `ts` are those of a head, of segments that each begin a definition, and of a
    body. -/
structure Parts (ts head : Tokens) (segments : List Tokens) (body : Tokens) : Prop where
  joined : ts = head ++ (segments.flatten ++ body)
  head : ∀ t ∈ head, ¬ BeginsPart t.text
  segments : ∀ s ∈ segments, Part .instruction s
  body : Part .begin body

/-- Tokens of which none begins a part, in front of some that do, are as many as they can be. -/
theorem cut_unique {us us' ts ts' : Tokens} (h : us ++ ts = us' ++ ts')
    (hus : ∀ u ∈ us, ¬ BeginsPart u.text) (hus' : ∀ u ∈ us', ¬ BeginsPart u.text)
    (hts : ∀ t ∈ ts.head?, BeginsPart t.text) (hts' : ∀ t ∈ ts'.head?, BeginsPart t.text) :
    us = us' ∧ ts = ts' := by
  induction us generalizing us' with
  | nil =>
    cases us' with
    | nil => exact ⟨rfl, h⟩
    | cons u us' =>
      obtain rfl : ts = u :: (us' ++ ts') := h
      exact absurd (hts u rfl) (hus' u List.mem_cons_self)
  | cons u us ih =>
    cases us' with
    | nil =>
      obtain rfl : u :: (us ++ ts) = ts' := h
      exact absurd (hts' u rfl) (hus u List.mem_cons_self)
    | cons u' us' =>
      obtain ⟨rfl, hrest⟩ := List.cons.inj h
      obtain ⟨rfl, rfl⟩ := ih hrest (List.forall_mem_cons.1 hus).2 (List.forall_mem_cons.1 hus').2
      exact ⟨rfl, rfl⟩

/-- Segments and a body begin a part. -/
theorem beginsPart_of_head {segments : List Tokens} {body : Tokens}
    (hsegments : ∀ s ∈ segments, Part .instruction s) (hbody : Part .begin body) :
    ∀ t ∈ (segments.flatten ++ body).head?, BeginsPart t.text := by
  cases segments with
  | nil =>
    obtain ⟨t, us, rfl, ht, -⟩ := hbody
    rintro _ ⟨⟩
    exact .inr ht
  | cons s segments =>
    obtain ⟨t, us, rfl, ht, -⟩ := hsegments s List.mem_cons_self
    rintro _ ⟨⟩
    exact .inl ht

/-- Segments end where the body begins. -/
theorem segments_unique {segments segments' : List Tokens} {body body' : Tokens}
    (h : segments.flatten ++ body = segments'.flatten ++ body')
    (hsegments : ∀ s ∈ segments, Part .instruction s)
    (hsegments' : ∀ s ∈ segments', Part .instruction s) (hbody : Part .begin body)
    (hbody' : Part .begin body') : segments = segments' ∧ body = body' := by
  -- No token begins both a segment and the body.
  have hne : ∀ {s b more : Tokens}, Part .instruction s → Part .begin b → b ≠ s ++ more := by
    rintro s b more ⟨t, us, rfl, ht, -⟩ ⟨v, vs, rfl, hv, -⟩ heq
    obtain ⟨rfl, -⟩ := List.cons.inj heq
    rw [ht] at hv
    exact absurd (Keyword.text_injective hv) (by decide)
  induction segments generalizing segments' with
  | nil =>
    cases segments' with
    | nil => exact ⟨rfl, h⟩
    | cons s segments' =>
      rw [List.flatten_nil, List.nil_append, List.flatten_cons, List.append_assoc] at h
      exact absurd h (hne (hsegments' s List.mem_cons_self) hbody)
  | cons s segments ih =>
    rw [List.flatten_cons, List.append_assoc] at h
    cases segments' with
    | nil => exact absurd h.symm (hne (hsegments s List.mem_cons_self) hbody')
    | cons s' segments' =>
      rw [List.flatten_cons, List.append_assoc] at h
      rw [List.forall_mem_cons] at hsegments hsegments'
      obtain ⟨⟨t, us, rfl, -, hus⟩, hsegments⟩ := hsegments
      obtain ⟨⟨t', us', rfl, -, hus'⟩, hsegments'⟩ := hsegments'
      obtain ⟨rfl, hrest⟩ := List.cons.inj h
      obtain ⟨rfl, hmore⟩ := cut_unique hrest hus hus' (beginsPart_of_head hsegments hbody)
        (beginsPart_of_head hsegments' hbody')
      obtain ⟨rfl, rfl⟩ := ih hmore hsegments hsegments'
      exact ⟨rfl, rfl⟩

/-- **One way to cut.**  Tokens fall into parts in at most one way. -/
theorem Parts.unique {ts head head' body body' : Tokens} {segments segments' : List Tokens}
    (h : Parts ts head segments body) (h' : Parts ts head' segments' body') :
    head = head' ∧ segments = segments' ∧ body = body' := by
  obtain ⟨rfl, hmore⟩ := cut_unique (h.joined.symm.trans h'.joined) h.head h'.head
    (beginsPart_of_head h.segments h.body) (beginsPart_of_head h'.segments h'.body)
  exact ⟨rfl, segments_unique hmore h.segments h'.segments h.body h'.body⟩

/-! ### Parts of a draft -/

theorem not_beginsPart_of_isIdentifier {n : String} (h : isIdentifier n = true) :
    ¬ BeginsPart n := by
  rintro (rfl | rfl)
  · simp at h
  · simp at h

/-- No word of statements begins a part. -/
theorem Statement.AllReadable.not_beginsPart {budget : Nat} {ss : List Statement}
    (h : AllReadable budget ss) : ∀ w ∈ wordsOf ss, ¬ BeginsPart w :=
  (forall_mem_words (by decide) (by intro c; cases c <;> decide)).2 ss fun name hname =>
    not_beginsPart_of_isIdentifier (h.named name hname)

/-- Tokens that spell `k`, and other words that begin no part. -/
theorem part_of_texts {k : Keyword} {w : List String} {ts : Tokens} (h : texts ts = k.text :: w)
    (hw : ∀ x ∈ w, ¬ BeginsPart x) : Part k ts := by
  obtain ⟨t, us, rfl, ht, rfl⟩ := List.map_eq_cons_iff.1 h
  exact ⟨t, us, rfl, ht, fun u hu => hw u.text (List.mem_map_of_mem hu)⟩

/-- Tokens that spell a definition are a part. -/
theorem Definition.WellFormed.part {d : Definition} (hd : d.WellFormed) {ts : Tokens}
    (h : texts ts = d.words) : Part .instruction ts := by
  have hwords : texts ts = Keyword.instruction.text ::
      (d.name :: Keyword.is.text :: (Statement.wordsOf d.body ++ [Keyword.end_.text, d.name])) := by
    simp [h, words]
  have hname := not_beginsPart_of_isIdentifier hd.named
  have hbody := hd.readable.not_beginsPart
  have his : ¬ BeginsPart Keyword.is.text := by decide
  have hend : ¬ BeginsPart Keyword.end_.text := by decide
  refine part_of_texts hwords ?_
  simp only [List.forall_mem_cons, List.forall_mem_append]
  exact ⟨hname, his, hbody, hend, hname, List.forall_mem_nil _⟩

/-- Tokens that spell definitions fall into segments, each of which spells one. -/
theorem exists_segments_of_definitions {ds : List Definition} {ts : Tokens}
    (h : texts ts = ds.flatMap Definition.words) :
    ∃ segments : List Tokens, ts = segments.flatten ∧
      segments.map texts = ds.map Definition.words := by
  induction ds generalizing ts with
  | nil =>
    obtain rfl : ts = [] := List.map_eq_nil_iff.1 h
    exact ⟨[], rfl, rfl⟩
  | cons d ds ih =>
    obtain ⟨s, us, rfl, hs, hus⟩ := List.map_eq_append_iff.1 h
    obtain ⟨segments, rfl, hsegments⟩ := ih hus
    exact ⟨s :: segments, rfl, congrArg₂ _ hs hsegments⟩

namespace Draft

/-- The words of a draft in front of its definitions. -/
def headWords (d : Draft) : List String := [Keyword.program.text, d.name, Keyword.is.text]

/-- The words of a draft behind its definitions, with the end mark. -/
def bodyWords (d : Draft) : List String :=
  Keyword.begin.text :: (Statement.wordsOf d.body ++ [Keyword.end_.text, d.name, endMark])

theorem words_eq_parts (d : Draft) :
    d.words ++ [endMark] =
      d.headWords ++ ((d.definitions.map Definition.words).flatten ++ d.bodyWords) := by
  simp [words, headWords, bodyWords, List.flatMap_def]

namespace WellFormed

variable {d : Draft} {ts : Tokens}

/-- The tokens of a draft fall into parts, and the segments spell its definitions. -/
theorem exists_parts (hd : d.WellFormed) (h : texts ts = d.words ++ [endMark]) :
    ∃ head segments body, Parts ts head segments body ∧ texts head = d.headWords ∧
      segments.map texts = d.definitions.map Definition.words ∧ texts body = d.bodyWords := by
  rw [words_eq_parts] at h
  obtain ⟨head, more, rfl, hhead, hmore⟩ := List.map_eq_append_iff.1 h
  obtain ⟨middle, body, rfl, hmiddle, hbody⟩ := List.map_eq_append_iff.1 hmore
  rw [← List.flatMap_def] at hmiddle
  obtain ⟨segments, rfl, hsegments⟩ := exists_segments_of_definitions hmiddle
  have hname := not_beginsPart_of_isIdentifier hd.named
  refine ⟨head, segments, body, ⟨rfl, ?_, ?_, ?_⟩, hhead, hsegments, hbody⟩
  · have hprogram : ¬ BeginsPart Keyword.program.text := by decide
    have his : ¬ BeginsPart Keyword.is.text := by decide
    have hwords : ∀ x ∈ d.headWords, ¬ BeginsPart x := by
      simp only [headWords, List.forall_mem_cons]
      exact ⟨hprogram, hname, his, List.forall_mem_nil _⟩
    rw [← hhead] at hwords
    exact fun t ht => hwords t.text (List.mem_map_of_mem ht)
  · intro s hs
    have hmem : texts s ∈ d.definitions.map Definition.words :=
      hsegments ▸ List.mem_map_of_mem hs
    obtain ⟨e, he, heq⟩ := List.mem_map.1 hmem
    exact (hd.definitions e he).part heq.symm
  · have hend : ¬ BeginsPart Keyword.end_.text := by decide
    have hmark : ¬ BeginsPart endMark := by decide
    refine part_of_texts hbody ?_
    simp only [List.forall_mem_cons, List.forall_mem_append]
    exact ⟨hd.readable.not_beginsPart, hend, hname, hmark, List.forall_mem_nil _⟩

/-- **Another order.**  With its definitions in another order a draft is in order too, and
    writes the same program. -/
theorem rearranged (hd : d.WellFormed) {ds : List Definition} (h : ds.Perm d.definitions) :
    (Draft.mk d.name ds d.body).WellFormed ∧ (Draft.mk d.name ds d.body).program = d.program := by
  have hformed : (Draft.mk d.name ds d.body).WellFormed :=
    ⟨hd.named, fun e he => hd.definitions e (h.mem_iff.1 he),
      (h.map Definition.name).nodup_iff.2 hd.distinct, hd.readable⟩
  -- What a draft denotes depends on which definitions it has, and not on their order.
  have hdenotes := hd.denotes_iff.2 rfl
  refine ⟨hformed, (hformed.denotes_iff.1 ⟨hdenotes.name, hdenotes.body, fun n s => ?_⟩).symm⟩
  rw [hdenotes.context]
  exact exists_congr fun e => and_congr_left' h.mem_iff.symm

end WellFormed

end Draft

/-! ### Lines that name definitions -/

/-- The name in a line that begins a definition. -/
def Line.definedName? (l : Line) : Option String :=
  match l.words with
  | [k, n, i] => if k = Keyword.instruction.text ∧ i = Keyword.is.text then some n else none
  | _ => none

/-- Another first word begins no definition. -/
theorem Line.definedName?_of_ne {k : String} (h : k ≠ Keyword.instruction.text) (indent : Nat)
    (ws : List String) : Line.definedName? ⟨indent, k :: ws⟩ = none := by
  unfold definedName?
  split
  · next n i heq =>
    obtain ⟨rfl, -⟩ := List.cons.inj heq
    exact if_neg fun hboth => h hboth.1
  · rfl

/-- No line of statements begins a definition: a call may have any name, but stands alone. -/
theorem Statement.definedNames_lines (indent : Nat) :
    (∀ (s : Statement) offset, (s.lines indent offset).filterMap Line.definedName? = []) ∧
    ∀ (ss : List Statement) offset,
      (linesOf indent offset ss).filterMap Line.definedName? = [] := by
  have hkeyword : ∀ (k : Keyword), k ≠ .instruction → ∀ offset ws,
      Line.definedName? ⟨offset, k.text :: ws⟩ = none := fun k hk offset ws =>
    Line.definedName?_of_ne (fun heq => hk (Keyword.text_injective heq)) offset ws
  have hif := hkeyword .if_ (by decide)
  have helse := hkeyword .else_ (by decide)
  have hwhile := hkeyword .while_ (by decide)
  have hend := hkeyword .end_ (by decide)
  refine induction ?_ ?_ ?_ ?_ ?_ ?_ ?_
  · intro cs ih offset
    exact ih offset
  · intro c b ih offset
    simp [lines, ih, hif, hend]
  · intro c a b iha ihb offset
    simp [lines, iha, ihb, hif, helse, hend]
  · intro c b ih offset
    simp [lines, ih, hwhile, hend]
  · intro n offset
    rfl
  · intro offset
    rfl
  · intro s ss ihs ihss offset
    rw [linesOf, List.filterMap_append, ihs, ihss, List.append_nil]

namespace Program

/-- The lines of a definition name it once. -/
theorem definedNames_definitionLines (indent : Nat) (e : String × Statement) :
    (definitionLines indent e).filterMap Line.definedName? = [e.1] := by
  have hfirst : Line.definedName? ⟨indent, [Keyword.instruction.text, e.1, Keyword.is.text]⟩ =
      some e.1 := by simp [Line.definedName?]
  have hlast : Line.definedName? ⟨indent, [Keyword.end_.text, e.1]⟩ = none := rfl
  have hempty : Line.definedName? ⟨0, []⟩ = none := rfl
  simp [definitionLines, hfirst, hlast, hempty, (Statement.definedNames_lines indent).1]

/-- The lines of a program that begin a definition name what its context defines. -/
theorem definedNames_lines (indent : Nat) (p : Program) :
    (p.lines indent).filterMap Line.definedName? = p.context.entries.map Prod.fst := by
  have hhead : Line.definedName? ⟨0, [Keyword.program.text, p.name, Keyword.is.text]⟩ = none :=
    Line.definedName?_of_ne (by decide) 0 _
  have hempty : Line.definedName? ⟨0, []⟩ = none := rfl
  have hbegin : Line.definedName? ⟨0, [Keyword.begin.text]⟩ = none := rfl
  have hend : Line.definedName? ⟨0, [Keyword.end_.text, p.name]⟩ = none := rfl
  have hentries : (p.context.entries.flatMap (definitionLines indent)).filterMap
      Line.definedName? = p.context.entries.map Prod.fst := by
    rw [List.filterMap_flatMap]
    simp only [definedNames_definitionLines]
    exact List.map_eq_flatMap.symm
  simp [lines, hhead, hempty, hbegin, hend, hentries, (Statement.definedNames_lines indent).1]

/-- These names are the defined ones, each once, in the order of their bytes. -/
theorem ascending_definedNames (indent : Nat) (p : Program) :
    (∀ n, ((p.lines indent).filterMap Line.definedName?).count n =
      if p.context.contains n then 1 else 0) ∧
    ((p.lines indent).filterMap Line.definedName?).Pairwise fun m n => bytesOf m < bytesOf n := by
  rw [definedNames_lines]
  have hsorted : (p.context.entries.map Prod.fst).Pairwise (· < ·) :=
    List.pairwise_map.2 p.context.sorted
  have hnodup : (p.context.entries.map Prod.fst).Nodup := hsorted.imp String.ne_of_lt
  refine ⟨fun n => ?_, hsorted.imp bytesOf_lt⟩
  have hmem : n ∈ p.context.entries.map Prod.fst ↔ p.context.contains n = true := by
    simp [Context.contains, Context.find?, Context.lookup?]
  rw [hnodup.count]
  exact if_congr hmem rfl rfl

end Program

/-! ### Whole programs -/

/-- **Definitions in another order.**  If tokens are read as a program, they fall into a head,
    segments and a body.  However they are cut so, the segments spell definitions, and with
    the segments in any other order the tokens are read as the same program, and so it is
    written as the same text.  In the text of any program, the lines that begin definitions name
    each one that its context defines once, in strictly ascending order of the bytes. -/
theorem parseProgram_rearranges {ts : Tokens} {p : Program}
    (h : (parseProgram ts).outcome = .ok p) :
    (∃ head segments body, Parts ts head segments body) ∧
    (∀ head segments body, Parts ts head segments body →
      (∀ s ∈ segments, ∃ d : Definition, d.WellFormed ∧ texts s = d.words) ∧
      ∀ segments' : List Tokens, segments'.Perm segments →
        (parseProgram (head ++ (segments'.flatten ++ body))).outcome = .ok p) ∧
    ∀ (q : Program) indent text, q.print indent = .ok text →
      text = joinLines (q.lines indent) ∧
      (∀ n, ((q.lines indent).filterMap Line.definedName?).count n =
        if q.context.contains n then 1 else 0) ∧
      ((q.lines indent).filterMap Line.definedName?).Pairwise fun m n =>
        bytesOf m < bytesOf n := by
  obtain ⟨d, hd, hwords, rfl⟩ := outcome_parseProgram.1 h
  obtain ⟨head, segments, body, hparts, hhead, hsegments, hbody⟩ := hd.exists_parts hwords
  refine ⟨⟨head, segments, body, hparts⟩, ?_, ?_⟩
  · rintro _ _ _ hparts'
    obtain ⟨rfl, rfl, rfl⟩ := hparts.unique hparts'
    refine ⟨fun s hs => ?_, fun segments' hperm => ?_⟩
    · have hmem : texts s ∈ d.definitions.map Definition.words :=
        hsegments ▸ List.mem_map_of_mem hs
      obtain ⟨e, he, heq⟩ := List.mem_map.1 hmem
      exact ⟨e, hd.definitions e he, heq.symm⟩
    · -- The segments in their order spell the definitions in some order.
      have hspelled : (segments'.map texts).Perm (d.definitions.map Definition.words) :=
        hsegments ▸ hperm.map texts
      have hcomp : Relation.Comp (· = List.map Definition.words ·) List.Perm (segments'.map texts)
          d.definitions := by
        rw [List.eq_map_comp_perm]
        exact hspelled
      obtain ⟨ds, hds, hpermuted⟩ := hcomp
      obtain ⟨hformed, hsame⟩ := hd.rearranged hpermuted
      have htexts : texts (head ++ (segments'.flatten ++ body)) =
          (Draft.mk d.name ds d.body).words ++ [endMark] := by
        have hflat : texts segments'.flatten = (segments'.map texts).flatten := List.map_flatten
        rw [texts_append, texts_append, hhead, hflat, hds, hbody, Draft.words_eq_parts]
        rfl
      exact outcome_parseProgram.2 ⟨_, hformed, htexts, hsame.symm⟩
  · intro q indent text hprint
    exact ⟨Statement.eq_joinLines_of_render hprint, q.ascending_definedNames indent⟩

/-- Two definitions change places, with the name of one as the beginning of the other's. -/
theorem parseProgram_rearranges_two_definitions :
    let ts := Token.ofWords ["PROGRAM", "A", "IS",
      "INSTRUCTION", "go-on", "IS", "END", "go-on",
      "INSTRUCTION", "go", "IS", "IF", "true", "THEN", "go-on", "END", "IF", "END", "go",
      "BEGIN", "go", "END", "A"]
    let p : Program := ⟨"A", (Context.empty.insert "go-on" (.block [])).insert "go"
      (.block [.ifThen .always [.call "go-on"]]), .block [.call "go"]⟩
    let head := ts.take 3
    let first := (ts.drop 3).take 5
    let second := (ts.drop 8).take 11
    let body := ts.drop 19
    ((parseProgram ts).outcome = .ok p ∧ Parts ts head [first, second] body ∧
      (parseProgram (head ++ ([second, first].flatten ++ body))).outcome = .ok p) ∧
    p.print 2 = .ok (joinLines (p.lines 2)) ∧
      ((p.lines 2).filterMap Line.definedName?).Pairwise fun m n => bytesOf m < bytesOf n := by
  intro ts p head first second body
  have hread : (parseProgram ts).outcome = .ok p := by decide +kernel
  have hfirst : texts first =
      [Keyword.instruction.text, "go-on", Keyword.is.text, Keyword.end_.text, "go-on"] := by
    decide +kernel
  have hsecond : texts second = Keyword.instruction.text :: ["go", Keyword.is.text, "IF", "true",
      "THEN", "go-on", "END", "IF", Keyword.end_.text, "go"] := by
    decide +kernel
  have hbody : texts body = Keyword.begin.text :: ["go", Keyword.end_.text, "A", endMark] := by
    decide +kernel
  have hparts : Parts ts head [first, second] body := by
    refine ⟨by decide +kernel, by decide +kernel, ?_, part_of_texts hbody (by decide)⟩
    rw [List.forall_mem_cons, List.forall_mem_singleton]
    exact ⟨part_of_texts hfirst (by decide), part_of_texts hsecond (by decide)⟩
  have hswap : [second, first].Perm [first, second] := .swap _ _ _
  have hprint : p.print 2 = .ok (joinLines (p.lines 2)) := by decide +kernel
  obtain ⟨-, hany, hnames⟩ := parseProgram_rearranges hread
  exact ⟨⟨hread, hparts, (hany _ _ _ hparts).2 _ hswap⟩, hprint, (hnames _ _ _ hprint).2.2⟩

end BlockLanguage
