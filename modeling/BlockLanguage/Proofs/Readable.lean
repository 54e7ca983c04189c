import BlockLanguage.Words

namespace BlockLanguage

/-!
# Readable statements

The grammar reads some trees back from their words and others not.  A tree is
readable under a budget when it holds no block, calls identifiers only, and does
not open more branches and loops inside each other than the budget allows.

* `Statement.nesting`, `Statement.calls` — how deep a tree opens, and whom it calls;
* `Statement.Readable`, `Statement.AllReadable` — readable trees and lists of them,
  with one equivalence for each shape;
* `Statement.forall_mem_words` — what the words of a statement can be;
* `Statement.head_words` — the word a readable statement begins with.
-/

/-- No reserved word is a name. -/
@[simp] theorem isIdentifier_keyword (k : Keyword) : isIdentifier k.text = false := by
  cases k <;> decide +kernel

/-- The end mark is no name. -/
@[simp] theorem isIdentifier_endMark : isIdentifier endMark = false := by decide +kernel

namespace Statement

/-! ### Measures of a tree -/

mutual

/-- How many branches and loops stand inside each other, at most.  Blocks do
    not count. -/
def nesting : Statement → Nat
  | .block children => nestingOf children
  | .ifThen _ body => nestingOf body + 1
  | .ifElse _ thenBody elseBody => max (nestingOf thenBody) (nestingOf elseBody) + 1
  | .whileDo _ body => nestingOf body + 1
  | .call _ => 0

/-- The deepest nesting among statements. -/
def nestingOf : List Statement → Nat
  | [] => 0
  | s :: ss => max (nesting s) (nestingOf ss)

end

mutual

/-- The instructions that a statement calls, in the order of the calls. -/
def calls : Statement → List String
  | .block children => callsOf children
  | .ifThen _ body => callsOf body
  | .ifElse _ thenBody elseBody => callsOf thenBody ++ callsOf elseBody
  | .whileDo _ body => callsOf body
  | .call name => [name]

/-- The instructions that statements call, in the order of the calls. -/
def callsOf : List Statement → List String
  | [] => []
  | s :: ss => calls s ++ callsOf ss

end

@[simp] theorem nestingOf_append (ss ts : List Statement) :
    nestingOf (ss ++ ts) = max (nestingOf ss) (nestingOf ts) := by
  induction ss with
  | nil => simp [nestingOf]
  | cons s ss ih => simp only [List.cons_append, nestingOf, ih]; omega

@[simp] theorem callsOf_append (ss ts : List Statement) :
    callsOf (ss ++ ts) = callsOf ss ++ callsOf ts := by
  induction ss with
  | nil => simp [callsOf]
  | cons s ss ih => simp only [List.cons_append, callsOf, ih, List.append_assoc]

/-! ### Readable trees -/

/-- What the grammar can read back under a budget of openings. -/
structure Readable (budget : Nat) (s : Statement) : Prop where
  flat : s.hasBlock = false
  named : ∀ name ∈ s.calls, isIdentifier name = true
  shallow : s.nesting ≤ budget

/-- Lists of statements that the grammar can read back one after the other. -/
structure AllReadable (budget : Nat) (ss : List Statement) : Prop where
  flat : anyHasBlock ss = false
  named : ∀ name ∈ callsOf ss, isIdentifier name = true
  shallow : nestingOf ss ≤ budget

variable {budget : Nat}

@[simp] theorem allReadable_nil : AllReadable budget [] :=
  ⟨rfl, by simp [callsOf], by simp [nestingOf]⟩

@[simp] theorem allReadable_cons {s : Statement} {ss : List Statement} :
    AllReadable budget (s :: ss) ↔ s.Readable budget ∧ AllReadable budget ss := by
  constructor
  · intro h
    obtain ⟨hflat, hnamed, hshallow⟩ := h
    simp only [anyHasBlock, Bool.or_eq_false_iff] at hflat
    simp only [callsOf, List.mem_append] at hnamed
    simp only [nestingOf] at hshallow
    exact ⟨⟨hflat.1, fun n hn => hnamed n (.inl hn), by omega⟩,
      ⟨hflat.2, fun n hn => hnamed n (.inr hn), by omega⟩⟩
  · intro h
    obtain ⟨hs, hss⟩ := h
    refine ⟨by simp [anyHasBlock, hs.flat, hss.flat], fun n hn => ?_, ?_⟩
    · rcases List.mem_append.1 hn with hn | hn
      · exact hs.named n hn
      · exact hss.named n hn
    · have h₁ := hs.shallow
      have h₂ := hss.shallow
      simp only [nestingOf]
      omega

/-- A block is not readable as a statement. -/
theorem not_readable_block (children : List Statement) :
    ¬ (Statement.block children).Readable budget := fun h => nomatch h.flat

@[simp] theorem readable_call {name : String} :
    (Statement.call name).Readable budget ↔ isIdentifier name = true := by
  constructor
  · intro h
    exact h.named name (by simp [calls])
  · intro h
    exact ⟨rfl, by simpa [calls] using h, by simp [nesting]⟩

/-- A loop needs one opening more than its body. -/
theorem readable_whileDo {c : Condition} {body : List Statement} :
    (Statement.whileDo c body).Readable (budget + 1) ↔ AllReadable budget body := by
  constructor
  · intro h
    obtain ⟨hflat, hnamed, hshallow⟩ := h
    exact ⟨hflat, hnamed, Nat.le_of_succ_le_succ hshallow⟩
  · intro h
    obtain ⟨hflat, hnamed, hshallow⟩ := h
    exact ⟨hflat, hnamed, Nat.succ_le_succ hshallow⟩

/-- A branch without alternative needs one opening more than its body. -/
theorem readable_ifThen {c : Condition} {body : List Statement} :
    (Statement.ifThen c body).Readable (budget + 1) ↔ AllReadable budget body := by
  constructor
  · intro h
    obtain ⟨hflat, hnamed, hshallow⟩ := h
    exact ⟨hflat, hnamed, Nat.le_of_succ_le_succ hshallow⟩
  · intro h
    obtain ⟨hflat, hnamed, hshallow⟩ := h
    exact ⟨hflat, hnamed, Nat.succ_le_succ hshallow⟩

/-- A branch with an alternative needs one opening more than either body. -/
theorem readable_ifElse {c : Condition} {thenBody elseBody : List Statement} :
    (Statement.ifElse c thenBody elseBody).Readable (budget + 1) ↔
      AllReadable budget thenBody ∧ AllReadable budget elseBody := by
  constructor
  · intro h
    obtain ⟨hflat, hnamed, hshallow⟩ := h
    simp only [hasBlock, Bool.or_eq_false_iff] at hflat
    simp only [calls, List.mem_append] at hnamed
    simp only [nesting] at hshallow
    exact ⟨⟨hflat.1, fun n hn => hnamed n (.inl hn), by omega⟩,
      ⟨hflat.2, fun n hn => hnamed n (.inr hn), by omega⟩⟩
  · intro h
    obtain ⟨hthen, helse⟩ := h
    refine ⟨by simp [hasBlock, hthen.flat, helse.flat], fun n hn => ?_, ?_⟩
    · rcases List.mem_append.1 hn with hn | hn
      · exact hthen.named n hn
      · exact helse.named n hn
    · have h₁ := hthen.shallow
      have h₂ := helse.shallow
      simp only [nesting]
      omega

/-- Without a budget only calls are readable. -/
theorem exists_call_of_readable_zero {s : Statement} (h : s.Readable 0) :
    ∃ name, s = .call name ∧ isIdentifier name = true := by
  have hdeep := h.shallow
  cases s with
  | block children => exact absurd h (not_readable_block children)
  | ifThen c body => simp [nesting] at hdeep
  | ifElse c thenBody elseBody => simp [nesting] at hdeep
  | whileDo c body => simp [nesting] at hdeep
  | call name => exact ⟨name, rfl, readable_call.1 h⟩

/-! ### All words -/

/-- The reserved words that statements are written with. -/
def keywords : List Keyword := [.if_, .then_, .else_, .while_, .do_, .end_]

/-- What holds of these reserved words, of the conditions and of the names that are called
    holds of all words. -/
theorem forall_mem_words {P : String → Prop} (hkeyword : ∀ k ∈ keywords, P k.text)
    (hcondition : ∀ c : Condition, P c.text) :
    (∀ s : Statement, (∀ name ∈ s.calls, P name) → ∀ w ∈ s.words, P w) ∧
      ∀ ss, (∀ name ∈ callsOf ss, P name) → ∀ w ∈ wordsOf ss, P w := by
  simp only [keywords, List.forall_mem_cons] at hkeyword
  obtain ⟨hif, hthen, helse, hwhile, hdo, hend, -⟩ := hkeyword
  refine induction ?_ ?_ ?_ ?_ ?_ ?_ ?_
  · intro cs ih
    exact ih
  · intro c b ih h
    have hb := ih h
    simpa [words, or_imp, forall_and, hif, hthen, hend, hcondition] using hb
  · intro c a b iha ihb h
    rw [calls, List.forall_mem_append] at h
    have ha := iha h.1
    have hb := ihb h.2
    simpa [words, or_imp, forall_and, hif, hthen, helse, hend, hcondition] using ⟨ha, hb⟩
  · intro c b ih h
    have hb := ih h
    simpa [words, or_imp, forall_and, hwhile, hdo, hend, hcondition] using hb
  · intro n h
    exact h
  · intro h
    exact nofun
  · intro s ss ihs ihss h
    rw [callsOf, List.forall_mem_append] at h
    rw [wordsOf, List.forall_mem_append]
    exact ⟨ihs h.1, ihss h.2⟩

/-! ### First words -/

/-- The words that a readable statement can begin with. -/
def Opens (word : String) : Prop :=
  word = Keyword.if_.text ∨ word = Keyword.while_.text ∨ isIdentifier word = true

/-- A readable statement has a first word, which opens it. -/
theorem head_words {s : Statement} (h : s.Readable budget) :
    ∃ word others, s.words = word :: others ∧ Opens word := by
  cases s with
  | block children => exact absurd h (not_readable_block children)
  | ifThen c body => exact ⟨_, _, rfl, .inl rfl⟩
  | ifElse c thenBody elseBody => exact ⟨_, _, rfl, .inl rfl⟩
  | whileDo c body => exact ⟨_, _, rfl, .inr (.inl rfl)⟩
  | call name => exact ⟨name, [], rfl, .inr (.inr (readable_call.1 h))⟩

end Statement

end BlockLanguage
