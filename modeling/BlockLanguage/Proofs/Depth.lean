import BlockLanguage.Proofs.NestedPrograms

namespace BlockLanguage

/-!
# How much is open

How many branches and loops some words leave open can be seen from `IF`, `WHILE` and `END`
alone.  Complete statements, and complete definitions, leave nothing open.

* `Depth`, `Depth.after`, `depthOf` — the depth that words lead to;
* `Depth.after_words` — complete statements lead back to the depth they begin at;
* `Entry.depthOf_openings` — the words behind which nothing more may be opened leave as many
  compound statements open as may be.
-/

/-! ### Depths -/

/-- How many compound statements some words leave open, and whether the last word is `END`. -/
structure Depth where
  opened : Int
  ending : Bool
  deriving DecidableEq, Repr

namespace Depth

/-- The depth behind one more word.  `IF` and `WHILE` open a statement, but behind `END` they
    close one. -/
def step (l : Depth) (x : String) : Depth :=
  if Compound x then ⟨if l.ending then l.opened - 1 else l.opened + 1, false⟩
  else ⟨l.opened, x == Keyword.end_.text⟩

/-- The depth behind some more words. -/
def after (l : Depth) (w : List String) : Depth := w.foldl step l

/-- The depth inside `d` compound statements. -/
abbrev inside (d : Nat) : Depth := ⟨d, false⟩

@[simp] theorem after_nil (l : Depth) : l.after [] = l := rfl

@[simp] theorem after_cons (l : Depth) (x : String) (w : List String) :
    l.after (x :: w) = (l.step x).after w := rfl

@[simp] theorem after_append (l : Depth) (u w : List String) :
    l.after (u ++ w) = (l.after u).after w := List.foldl_append

/-! ### One word -/

theorem step_opening {n : Int} {x : String} (h : Compound x) :
    (⟨n, false⟩ : Depth).step x = ⟨n + 1, false⟩ := by
  rw [step, if_pos h]
  rfl

theorem step_closing {n : Int} {x : String} (h : Compound x) :
    (⟨n, true⟩ : Depth).step x = ⟨n - 1, false⟩ := by
  rw [step, if_pos h]
  rfl

theorem step_end (l : Depth) : l.step Keyword.end_.text = ⟨l.opened, true⟩ := by
  rw [step, if_neg (by decide)]
  simp

/-- A word that neither opens nor closes anything, nor is about to. -/
theorem step_of_ne {l : Depth} {x : String} (hcompound : ¬ Compound x)
    (hend : x ≠ Keyword.end_.text) : l.step x = ⟨l.opened, false⟩ := by
  rw [step, if_neg hcompound]
  simpa using hend

theorem step_keyword_of_ne {l : Depth} {k : Keyword} (hcompound : ¬ Compound k.text)
    (hend : k ≠ .end_) : l.step k.text = ⟨l.opened, false⟩ :=
  step_of_ne hcompound fun heq => hend (Keyword.text_injective heq)

theorem step_of_isIdentifier {l : Depth} {n : String} (h : isIdentifier n = true) :
    l.step n = ⟨l.opened, false⟩ := by
  have hne : ∀ k : Keyword, n ≠ k.text := by
    rintro k rfl
    rw [isIdentifier_keyword] at h
    cases h
  exact step_of_ne (fun hn => hn.elim (hne .while_) (hne .if_)) (hne .end_)

@[simp] theorem step_condition (l : Depth) (c : Condition) : l.step c.text = ⟨l.opened, false⟩ := by
  apply step_of_ne
  · cases c <;> decide
  · cases c <;> decide

/-- The depth behind one reserved word. -/
@[simp] theorem step_keyword (l : Depth) (k : Keyword) :
    l.step k.text = match k with
      | .while_ | .if_ => ⟨if l.ending then l.opened - 1 else l.opened + 1, false⟩
      | .end_ => ⟨l.opened, true⟩
      | _ => ⟨l.opened, false⟩ := by
  cases k with
  | while_ | if_ => exact if_pos (by decide)
  | end_ => exact step_end l
  | _ => exact step_keyword_of_ne (by decide) (by decide)

/-! ### Complete statements -/

/-- **Complete statements** lead back to the depth they begin at. -/
theorem after_words :
    (∀ s : Statement, (∀ n ∈ s.calls, isIdentifier n = true) → ∀ m : Int,
      (⟨m, false⟩ : Depth).after s.words = ⟨m, false⟩) ∧
    ∀ ss, (∀ n ∈ Statement.callsOf ss, isIdentifier n = true) → ∀ m : Int,
      (⟨m, false⟩ : Depth).after (Statement.wordsOf ss) = ⟨m, false⟩ := by
  refine Statement.induction ?_ ?_ ?_ ?_ ?_ ?_ ?_
  · intro cs ih
    exact ih
  · intro c b ih h m
    simp [Statement.words, ih h]
  · intro c a b iha ihb h m
    rw [Statement.calls, List.forall_mem_append] at h
    simp [Statement.words, iha h.1, ihb h.2]
  · intro c b ih h m
    simp [Statement.words, ih h]
  · intro n h m
    have hname : isIdentifier n = true := h n (by simp [Statement.calls])
    simp [Statement.words, step_of_isIdentifier hname]
  · intro _ m
    rfl
  · intro s ss ihs ihss h m
    rw [Statement.callsOf, List.forall_mem_append] at h
    simp [Statement.wordsOf, ihs h.1, ihss h.2]

variable {n : Nat} {w : List String}

theorem after_statements {ss : List Statement} (h : Statement.AllReadable n ss) (m : Int) :
    (⟨m, false⟩ : Depth).after (Statement.wordsOf ss) = ⟨m, false⟩ := after_words.2 ss h.named m

/-- **Words that leave `n` statements open** lead `n` deeper further in. -/
theorem after_openings (h : Sentences.openings n w ()) (m : Int) :
    (⟨m, false⟩ : Depth).after w = ⟨m + n, false⟩ := by
  induction n generalizing w m with
  | zero =>
    obtain ⟨rfl, -⟩ := h
    simp
  | succ n ih =>
    rcases h with ⟨_, rfl, c, _, rfl, _, rfl, ss, k, rfl, hss, hk⟩ |
      ⟨_, rfl, c, _, rfl, _, rfl, ss, k, rfl, hss, hk | ⟨_, rfl, ss', k, rfl, hss', hk⟩⟩
    · simp [after_statements hss, ih hk, Int.add_assoc, Int.add_comm 1]
    · simp [after_statements hss, ih hk, Int.add_assoc, Int.add_comm 1]
    · simp [after_statements hss, after_statements hss', ih hk, Int.add_assoc, Int.add_comm 1]

theorem after_blockOpenings (h : Sentences.blockOpenings n w ()) (m : Int) :
    (⟨m, false⟩ : Depth).after w = ⟨m + n, false⟩ := by
  obtain ⟨ss, k, rfl, hss, hk⟩ := h
  rw [after_append, after_statements hss, after_openings hk]

/-- **Complete definitions** leave nothing open. -/
theorem after_definitions {c : Context} {ds : List Definition} (h : c.Admits ds) (m : Int) :
    (⟨m, false⟩ : Depth).after (ds.flatMap Definition.words) = ⟨m, false⟩ := by
  induction ds generalizing c with
  | nil => rfl
  | cons d ds ih =>
    obtain ⟨hd, -, hds⟩ := h
    simp [Definition.words, step_of_isIdentifier hd.named, after_statements hd.readable, ih hds]

end Depth

/-- The depth behind some words. -/
def depthOf (w : List String) : Depth := (Depth.inside 0).after w

theorem depthOf_append_singleton (w : List String) (x : String) :
    depthOf (w ++ [x]) = (depthOf w).step x := by
  simp [depthOf]

/-- Behind the words of a reading that leave as many statements open as may be, as many are
    open. -/
theorem Entry.depthOf_openings {e : Entry} {w : List String} (h : e.openings w ()) :
    depthOf w = .inside nestingLimit := by
  cases e with
  | statement =>
    have hdepth := Depth.after_openings h 0
    rwa [Int.zero_add] at hdepth
  | block =>
    have hdepth := Depth.after_blockOpenings h 0
    rwa [Int.zero_add] at hdepth
  | program =>
    obtain ⟨_, rfl, n, _, rfl, hn, _, rfl, ds, _, rfl, hds, h⟩ := h
    rcases h with ⟨_, rfl, n', _, rfl, hn', -, k, rfl, hk⟩ | ⟨k, rfl, hk⟩
    · simp [depthOf, Depth.step_of_isIdentifier hn, Depth.after_definitions hds,
        Depth.step_of_isIdentifier hn', Depth.after_blockOpenings hk]
    · simp [depthOf, Depth.step_of_isIdentifier hn, Depth.after_definitions hds,
        Depth.after_blockOpenings hk]

end BlockLanguage
