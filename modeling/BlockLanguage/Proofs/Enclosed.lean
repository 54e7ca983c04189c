import BlockLanguage.Proofs.Acceptance
import BlockLanguage.Proofs.Joined

namespace BlockLanguage

/-!
# Statements in the body of a program

A text of statements and the body of a program are read alike.  Whatever text is put into
the body of a program without definitions, the program is read exactly if the text is one of
statements, and no word of the text is taken for anything but the body.

* `spelled` — the words of a text, which are put together with the texts;
* `enclose` — the text of a program with a given text in its body;
* `Draft.words_eq_enclosed_iff` — which drafts have the words of such a program;
* `parse_encloses_statements` — what is read from it.
-/

/-! ### The words of texts -/

/-- The words that a text spells: those of its tokens, without the end mark. -/
def spelled (source : String) : List String := texts (tokenize source).dropLast

/-- The tokens of a text spell its words and the end mark. -/
theorem texts_tokenize (source : String) :
    texts (tokenize source) = spelled source ++ [endMark] := by
  obtain ⟨ts, p, heq, -⟩ := exists_tokenize_eq source
  rw [spelled, heq, List.dropLast_concat, texts_append]
  rfl

/-- Tokens that are moved spell the same words. -/
@[simp] theorem texts_map_moved (cs : List Char) (ts : Tokens) :
    texts (ts.map (Token.moved cs)) = texts ts := by
  rw [texts, List.map_map]
  rfl

/-- Where no word goes on, texts put together spell the words of both. -/
theorem spelled_append {a b : String} (h : Seam a.toList b.toList) :
    spelled (a ++ b) = spelled a ++ spelled b := by
  have hboth := texts_tokenize (a ++ b)
  rw [tokenize_append h, texts_append, texts_map_moved, texts_tokenize, ← List.append_assoc]
    at hboth
  exact (List.append_cancel_right hboth).symm

/-- A word spells itself. -/
theorem spelled_word {w : String} (h : IsWord w) : spelled w = [w] := by
  rw [spelled, tokenize, scanFrom_run_nil .start h.nonempty h.chars, String.ofList_toList]
  rfl

/-- Behind a text that ends with a blank no word goes on. -/
theorem seam_of_blank_end {a b : String} (h : ∃ c ∈ a.toList.getLast?, isBlank c = true) :
    Seam a.toList b.toList := by
  obtain ⟨c, hlast, hblank⟩ := h
  refine .inl fun d hd => ?_
  obtain rfl := Option.mem_unique hlast hd
  exact isWordChar_of_isBlank hblank

/-- In front of a text that begins with a blank no word goes on. -/
theorem seam_of_blank_begin {a b : String} (h : ∃ c ∈ b.toList.head?, isBlank c = true) :
    Seam a.toList b.toList := by
  obtain ⟨c, hfirst, hblank⟩ := h
  refine .inr fun d hd => ?_
  obtain rfl := Option.mem_unique hfirst hd
  exact isWordChar_of_isBlank hblank

/-! ### Enclosed texts -/

/-- The text of a program with `source` in its body and without definitions. -/
def enclose (name source : String) : String :=
  "PROGRAM " ++ name ++ " IS BEGIN\n" ++ source ++ "\nEND " ++ name

/-- The words of such a program are its own around those of `source`. -/
theorem spelled_enclose {name : String} (h : IsWord name) (source : String) :
    spelled (enclose name source) =
      ["PROGRAM", name, "IS", "BEGIN"] ++ spelled source ++ ["END", name] := by
  have hopening : spelled "PROGRAM " = ["PROGRAM"] := by decide +kernel
  have hmiddle : spelled " IS BEGIN\n" = ["IS", "BEGIN"] := by decide +kernel
  have hclosing : spelled "\nEND " = ["END"] := by decide +kernel
  simp only [enclose, String.append_assoc]
  -- On one side of each place between the texts stands a blank.
  rw [spelled_append, spelled_append, spelled_append, spelled_append, spelled_append,
    hopening, hmiddle, hclosing, spelled_word h]
  · simp
  · exact seam_of_blank_end ⟨' ', by simp, by decide⟩
  · exact seam_of_blank_begin ⟨'\n', by simp, by decide⟩
  · exact seam_of_blank_end ⟨'\n', by simp, by decide⟩
  · exact seam_of_blank_begin ⟨' ', by simp, by decide⟩
  · exact seam_of_blank_end ⟨' ', by simp, by decide⟩

/-! ### Drafts without definitions -/

/-- A draft has the words of such a program exactly if it has the name of it, no definitions,
    and a body with the words in between. -/
theorem Draft.words_eq_enclosed_iff {d : Draft} {name : String} {w : List String} :
    ["PROGRAM", name, "IS", "BEGIN"] ++ w ++ ["END", name] = d.words ↔
      d.name = name ∧ d.definitions = [] ∧ Statement.wordsOf d.body = w := by
  obtain ⟨n, ds, body⟩ := d
  constructor
  · intro h
    cases ds with
    | nil =>
      simp only [words, Keyword.text, List.flatMap_nil, List.append_nil,
        List.cons_append, List.nil_append, List.cons.injEq, true_and] at h
      obtain ⟨rfl, hbody⟩ := h
      exact ⟨rfl, rfl, (List.append_cancel_right hbody).symm⟩
    | cons e ds =>
      -- A definition would begin with another word than the body does.
      simp [words, Definition.words, Keyword.text] at h
  · rintro ⟨rfl, hds, rfl⟩
    obtain rfl : ds = [] := hds
    simp [words, Keyword.text]

/-- **Statements in the body of a program.**  The text of a program around any text is read
    exactly if the latter is one of statements, and then the program has the name, no
    definitions, and these statements as its body.  Whenever it is read, the words of the
    body are all words of the text inside: none closes the body or begins anything else. -/
theorem parse_encloses_statements {name : String} (h : isIdentifier name = true)
    (source : String) :
    (∀ p, parse (enclose name source) = .ok p ↔
      ∃ b, parseStatements source = .ok b ∧ p = ⟨name, .empty, b⟩) ∧
    ∀ p, parse (enclose name source) = .ok p → p.body.words = spelled source := by
  have hparse : ∀ p, parse (enclose name source) = .ok p ↔
      ∃ body, Statement.AllReadable nestingLimit body ∧ Statement.wordsOf body = spelled source ∧
        p = ⟨name, .empty, .block body⟩ := by
    intro p
    have hwords : texts (tokenize (enclose name source)) =
        ["PROGRAM", name, "IS", "BEGIN"] ++ spelled source ++ ["END", name] ++ [endMark] := by
      rw [texts_tokenize, spelled_enclose (isWord_of_isIdentifier h)]
    rw [parse, readProgram, outcome_parseProgram, hwords]
    constructor
    · rintro ⟨⟨n, ds, body⟩, hd, htexts, rfl⟩
      obtain ⟨hname, hds, hbody⟩ := Draft.words_eq_enclosed_iff.1 (List.append_cancel_right htexts)
      obtain rfl : n = name := hname
      obtain rfl : ds = [] := hds
      exact ⟨body, hd.readable, hbody, rfl⟩
    · rintro ⟨body, hbody, hsource, rfl⟩
      refine ⟨⟨name, [], body⟩, ⟨h, nofun, List.nodup_nil, hbody⟩, ?_, rfl⟩
      exact congrArg (· ++ [endMark]) (Draft.words_eq_enclosed_iff.2 ⟨rfl, rfl, hsource⟩)
  refine ⟨fun p => (hparse p).trans ?_, fun p hp => ?_⟩
  · simp only [outcome_readStatements, texts_tokenize, List.append_cancel_right_eq]
    constructor
    · rintro ⟨body, hbody, hsource, rfl⟩
      exact ⟨_, ⟨body, hbody, hsource.symm, rfl⟩, rfl⟩
    · rintro ⟨_, ⟨body, hbody, hsource, rfl⟩, rfl⟩
      exact ⟨body, hbody, hsource.symm, rfl⟩
  · obtain ⟨body, -, hsource, rfl⟩ := (hparse p).1 hp
    exact hsource

/-- A branch is read, and so is the program around it; all words of the text are the body's. -/
theorem parse_encloses_branch :
    isIdentifier "move" = true ∧
    parseStatements "IF true THEN\ngo END IF" = .ok (.block [.ifThen .always [.call "go"]]) ∧
    parse (enclose "move" "IF true THEN\ngo END IF") =
      .ok ⟨"move", .empty, .block [.ifThen .always [.call "go"]]⟩ ∧
    (Statement.block [.ifThen .always [.call "go"]]).words = spelled "IF true THEN\ngo END IF" := by
  have hname : isIdentifier "move" = true := by decide +kernel
  have hread : parseStatements "IF true THEN\ngo END IF" =
      .ok (.block [.ifThen .always [.call "go"]]) := by decide +kernel
  obtain ⟨hiff, hwords⟩ := parse_encloses_statements hname "IF true THEN\ngo END IF"
  have hparse := (hiff _).2 ⟨_, hread, rfl⟩
  exact ⟨hname, hread, hparse, hwords _ hparse⟩

end BlockLanguage
