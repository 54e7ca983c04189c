import BlockLanguage.Proofs.Readable
import BlockLanguage.Proofs.WellFormed
import BlockLanguage.SyntaxError

namespace BlockLanguage

/-!
# Drafts

A draft is a program as it is written: its definitions stand in some order, and
nothing keeps two of them from having one name.  A program forgets the order.

* `Definition`, `Draft` — what is written, with its words and the conditions
  under which it is a program;
* `Draft.Denotes` — the program that a draft writes;
* `Context.define`, `Context.extend`, `Context.Admits` — definitions put into a
  context one after the other;
* `definedNames` — the names that a list of words defines;
* `exists_free_name` — a context always leaves a name to define.
-/

/-- The definition of an instruction, as it is written. -/
structure Definition where
  name : String
  body : List Statement

namespace Definition

/-- The words that write a definition. -/
def words (d : Definition) : List String :=
  [Keyword.instruction.text, d.name, Keyword.is.text] ++ Statement.wordsOf d.body ++
    [Keyword.end_.text, d.name]

/-- A definition by itself is in order. -/
structure WellFormed (d : Definition) : Prop where
  named : isIdentifier d.name = true
  own : isPrimitive d.name = false
  readable : Statement.AllReadable nestingLimit d.body

/-- The entry of a definition is allowed in a context. -/
theorem WellFormed.allowed {d : Definition} (h : d.WellFormed) :
    Program.Allowed (d.name, .block d.body) :=
  ⟨h.named, h.own, rfl, h.readable.flat⟩

end Definition

/-! ### Definitions put into a context -/

namespace Context

/-- The context with the body of `d` under its name. -/
def define (c : Context) (d : Definition) : Context := c.insert d.name (.block d.body)

/-- The context with the definitions `ds`, one put in after the other. -/
def extend (c : Context) (ds : List Definition) : Context := ds.foldl define c

/-- The definitions are in order, and none has a name that `c` or one before it
    has. -/
def Admits (c : Context) : List Definition → Prop
  | [] => True
  | d :: ds => d.WellFormed ∧ c.contains d.name = false ∧ (c.define d).Admits ds

@[simp] theorem extend_nil (c : Context) : c.extend [] = c := rfl

@[simp] theorem extend_cons (c : Context) (d : Definition) (ds : List Definition) :
    c.extend (d :: ds) = (c.define d).extend ds := rfl

/-- After a definition its name is taken, and so are the old ones. -/
theorem contains_define (c : Context) (d : Definition) (n : String) :
    (c.define d).contains n = (decide (n = d.name) || c.contains n) := contains_insert ..

/-- Definitions are admitted when they are in order and their names differ from
    each other and from those in the context. -/
theorem admits_iff {c : Context} {ds : List Definition} :
    c.Admits ds ↔ (∀ d ∈ ds, d.WellFormed) ∧ (ds.map Definition.name).Nodup ∧
      ∀ d ∈ ds, c.contains d.name = false := by
  induction ds generalizing c with
  | nil => simp [Admits]
  | cons d ds ih =>
    simp only [Admits, ih, contains_define, List.forall_mem_cons, List.map_cons, List.nodup_cons,
      Bool.or_eq_false_iff, decide_eq_false_iff_not]
    constructor
    · intro h
      obtain ⟨hd, hfree, hds, hnodup, hnew⟩ := h
      refine ⟨⟨hd, hds⟩, ⟨?_, hnodup⟩, hfree, fun e he => (hnew e he).2⟩
      rw [List.mem_map]
      intro h
      obtain ⟨e, he, heq⟩ := h
      exact (hnew e he).1 heq
    · intro h
      obtain ⟨⟨hd, hds⟩, ⟨hnot, hnodup⟩, hfree, hold⟩ := h
      refine ⟨hd, hfree, hds, hnodup, fun e he => ⟨fun heq => hnot ?_, hold e he⟩⟩
      exact List.mem_map.2 ⟨e, he, heq⟩

/-- What stands under a name once definitions with different names are put in. -/
theorem find?_extend {c : Context} {ds : List Definition} (h : c.Admits ds) (n : String)
    (s : Statement) :
    (c.extend ds).find? n = some s ↔
      (∃ d ∈ ds, d.name = n ∧ s = .block d.body) ∨ c.find? n = some s := by
  induction ds generalizing c with
  | nil => simp
  | cons d ds ih =>
    obtain ⟨-, hfree, hds⟩ := h
    rw [extend_cons, ih hds, define, find?_insert]
    by_cases hn : n = d.name
    · subst hn
      -- Neither the context nor a later definition puts anything under this name.
      have hnone : c.find? d.name = none := by simpa [contains] using hfree
      have hother : ¬ ∃ e ∈ ds, e.name = d.name ∧ s = .block e.body := by
        intro h
        obtain ⟨e, he, heq, -⟩ := h
        have := (admits_iff.1 hds).2.2 e he
        simp [contains_define, heq] at this
      rw [if_pos rfl, hnone, or_iff_right hother]
      constructor
      · intro h
        exact .inl ⟨d, List.mem_cons_self, rfl, (Option.some.inj h).symm⟩
      · intro h
        rcases h with ⟨e, he, heq, rfl⟩ | h
        · rcases List.mem_cons.1 he with rfl | he
          · rfl
          · exact absurd ⟨e, he, heq, rfl⟩ hother
        · cases h
    · simp [hn, Ne.symm hn]

/-- A context stays allowed when it admits what is put in. -/
theorem Allowed.extend {c : Context} (hc : c.Allowed) {ds : List Definition} (h : c.Admits ds) :
    (c.extend ds).Allowed := by
  induction ds generalizing c with
  | nil => exact hc
  | cons d ds ih => exact ih (hc.insert h.1.allowed) h.2.2

end Context

/-! ### Drafts -/

/-- A program, as it is written. -/
structure Draft where
  name : String
  definitions : List Definition
  body : List Statement

namespace Draft

/-- The words that write a draft. -/
def words (d : Draft) : List String :=
  [Keyword.program.text, d.name, Keyword.is.text] ++ d.definitions.flatMap Definition.words ++
    [Keyword.begin.text] ++ Statement.wordsOf d.body ++ [Keyword.end_.text, d.name]

/-- A draft is in order: its names are identifiers, no definition has a primitive
    name or that of another definition, and all statements are readable. -/
structure WellFormed (d : Draft) : Prop where
  named : isIdentifier d.name = true
  definitions : ∀ e ∈ d.definitions, e.WellFormed
  distinct : (d.definitions.map Definition.name).Nodup
  readable : Statement.AllReadable nestingLimit d.body

/-- The program `p` has the name and the body of the draft, and its context maps
    the name of each definition to its body and nothing else to anything. -/
structure Denotes (d : Draft) (p : Program) : Prop where
  name : p.name = d.name
  body : p.body = .block d.body
  context : ∀ n s, p.context.find? n = some s ↔
    ∃ e ∈ d.definitions, e.name = n ∧ s = .block e.body

/-- The program that a draft writes. -/
def program (d : Draft) : Program := ⟨d.name, Context.empty.extend d.definitions, .block d.body⟩

/-- A context without entries admits the definitions of a draft in order. -/
theorem WellFormed.admits {d : Draft} (h : d.WellFormed) : Context.empty.Admits d.definitions :=
  Context.admits_iff.2 ⟨h.definitions, h.distinct, fun _ _ => Context.contains_empty _⟩

/-- A draft in order denotes the program that it writes, and no other. -/
theorem WellFormed.denotes_iff {d : Draft} (h : d.WellFormed) {p : Program} :
    d.Denotes p ↔ p = d.program := by
  have hcontext : ∀ n s, d.program.context.find? n = some s ↔
      ∃ e ∈ d.definitions, e.name = n ∧ s = .block e.body := by
    intro n s
    show (Context.empty.extend d.definitions).find? n = some s ↔ _
    simpa using Context.find?_extend h.admits n s
  constructor
  · intro h
    obtain ⟨hname, hbody, hfind⟩ := h
    obtain ⟨name, context, body⟩ := p
    obtain rfl := hname
    obtain rfl := hbody
    have heq : context = d.program.context := by
      apply Context.ext_find?
      intro n
      ext s
      exact (hfind n s).trans (hcontext n s).symm
    rw [heq]
    rfl
  · rintro rfl
    exact ⟨rfl, rfl, hcontext⟩

/-- A draft in order writes a well-formed program. -/
theorem WellFormed.program_wellFormed {d : Draft} (h : d.WellFormed) : d.program.WellFormed :=
  ⟨h.named, Context.allowed_empty.extend h.admits, rfl, h.readable.flat⟩

end Draft

/-! ### Names that words define -/

/-- The words that stand right behind `INSTRUCTION`. -/
def definedNames : List String → List String
  | [] => []
  | [_] => []
  | x :: n :: w =>
    if x = Keyword.instruction.text then n :: definedNames (n :: w) else definedNames (n :: w)

/-- A word in front keeps all names that are defined. -/
theorem definedNames_sublist_cons (x : String) (w : List String) :
    (definedNames w).Sublist (definedNames (x :: w)) := by
  cases w with
  | nil => exact List.nil_sublist _
  | cons n w =>
    rw [definedNames]
    split
    · exact List.sublist_cons_self n _
    · exact List.Sublist.refl _

/-- Words in front keep all names that are defined. -/
theorem definedNames_sublist_append (u w : List String) :
    (definedNames w).Sublist (definedNames (u ++ w)) := by
  induction u with
  | nil => exact List.Sublist.refl _
  | cons x u ih => exact ih.trans (definedNames_sublist_cons x _)

/-! ### Free names -/

/-- No reserved word, condition or primitive instruction is longer than this. -/
theorem length_le_of_reserved {s : String}
    (h : isKeyword s = true ∨ isCondition s = true ∨ isPrimitive s = true) : s.length ≤ 18 := by
  rcases h with h | h | h
  · obtain ⟨k, rfl⟩ := isKeyword_iff.1 h
    cases k <;> decide
  · obtain ⟨c, rfl⟩ := isCondition_iff.1 h
    cases c <;> decide
  · simp only [isPrimitive, List.contains_eq_mem, decide_eq_true_eq, primitives, List.mem_cons,
      List.not_mem_nil, or_false] at h
    rcases h with rfl | rfl | rfl | rfl | rfl <;> decide

/-- A name that is longer than all reserved ones. -/
def longName (n : Nat) : String := String.ofList (List.replicate (n + 19) 'x')

theorem length_longName (n : Nat) : (longName n).length = n + 19 := by
  simp [longName, ← String.length_toList]

theorem isIdentifier_longName (n : Nat) : isIdentifier (longName n) = true := by
  have hlong : ¬ (longName n).length ≤ 18 := by rw [length_longName]; omega
  have hkeyword : isKeyword (longName n) = false := by
    rw [← Bool.not_eq_true]
    exact fun h => hlong (length_le_of_reserved (.inl h))
  have hcondition : isCondition (longName n) = false := by
    rw [← Bool.not_eq_true]
    exact fun h => hlong (length_le_of_reserved (.inr (.inl h)))
  have hlist : (longName n).toList = 'x' :: List.replicate (n + 18) 'x' := by
    simp [longName, List.replicate_succ]
  rw [isIdentifier, hlist]
  simp only [hkeyword, hcondition, Bool.not_false, Bool.and_true, Bool.and_eq_true,
    List.all_eq_true]
  refine ⟨by decide, fun c hc => ?_⟩
  rw [List.eq_of_mem_replicate hc]
  decide

/-- **A free name.**  Whatever a context defines, there is a name that a new
    definition can have. -/
theorem Context.exists_free_name (c : Context) :
    ∃ n, isIdentifier n = true ∧ isPrimitive n = false ∧ c.contains n = false := by
  -- A name longer than all that are taken is free.
  obtain ⟨m, hm⟩ : ∃ m, ∀ e ∈ c.entries, e.1.length ≤ m := by
    induction c.entries with
    | nil => exact ⟨0, nofun⟩
    | cons e es ih =>
      obtain ⟨m, hm⟩ := ih
      refine ⟨max e.1.length m, fun f hf => ?_⟩
      rcases List.mem_cons.1 hf with rfl | hf
      · exact Nat.le_max_left _ _
      · exact Nat.le_trans (hm f hf) (Nat.le_max_right _ _)
  refine ⟨longName m, isIdentifier_longName m, ?_, ?_⟩
  · rw [← Bool.not_eq_true]
    intro h
    have := length_le_of_reserved (.inr (.inr h))
    rw [length_longName] at this
    omega
  · rw [← Bool.not_eq_true]
    intro h
    obtain ⟨e, he, hname⟩ : ∃ e ∈ c.entries, e.1 = longName m := by
      simpa [contains, find?, lookup?] using h
    have := hm e he
    rw [hname, length_longName] at this
    omega

end BlockLanguage
