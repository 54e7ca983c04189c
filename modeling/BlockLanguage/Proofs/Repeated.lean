import BlockLanguage.Proofs.Budget

namespace BlockLanguage

/-!
# Blocks, statement by statement

Reading a block is reading single statements again and again, each as an operation of its own,
up to `END`, `ELSE`, the end mark or the end of the list, or to a failure.  A reader that goes on
with one cursor for a whole block knows what such readings do not: the last token taken before,
and what earlier statements have done to the counter.  It makes no use of either.

* `oneByOne` — statements read again and again;
* `Rule.lastPosition_of_suffix`, `oneByOne_eq_run` — what is left ends where the whole ends, so
  that errors are located alike;
* `Counted.reading?_statement` — one statement from a cursor;
* `repeated` — statements read from one cursor to the next, which may be renewed in between;
* `Cursor.Renewing.reading?_repeated` — whether it is renewed does not matter;
* `parseBlock_repeats_parseStatement` — a block, both ways.
-/

variable {α : Type}

/-- Makes another value of the one that is read. -/
def Reading.map {ε β : Type} (f : α → β) (x : Reading ε α) : Reading ε β :=
  ⟨x.outcome.map f, x.rest, x.events⟩

/-- A statement that is read takes a token. -/
theorem length_lt_of_parseStatement {ts rest : Tokens} {s : Statement} {events : List Event}
    (h : parseStatement ts = ⟨.ok s, rest, events⟩) : rest.length < ts.length := by
  have hok : (parseStatement ts).outcome = .ok s := by rw [h]
  have hlt := Rule.progresses_statement nestingLimit ts s (Rule.outcome_run.1 hok)
  have hrest : ((Rule.statement nestingLimit).read ts).rest = rest := congrArg Reading.rest h
  rwa [hrest] at hlt

/-- The statements that are read one by one from the front of the tokens, each by
    `parseStatement`: up to `END`, `ELSE`, the end mark or the end of the list, or to a failure. -/
def oneByOne (ts : Tokens) : Reading Error (List Statement) :=
  if ∀ x ∈ (texts ts).head?, Closes x then ⟨.ok [], ts, []⟩
  else
    match _h : parseStatement ts with
    | ⟨.error e, rest, events⟩ => ⟨.error e, rest, events⟩
    | ⟨.ok s, rest, events⟩ =>
      let others := oneByOne rest
      ⟨others.outcome.map (s :: ·), others.rest, events ++ others.events⟩
  termination_by ts.length
  decreasing_by exact length_lt_of_parseStatement _h

variable {ts rest : Tokens} {events : List Event}

theorem oneByOne_end (h : ∀ x ∈ (texts ts).head?, Closes x) : oneByOne ts = ⟨.ok [], ts, []⟩ := by
  rw [oneByOne, if_pos h]

theorem oneByOne_failed {e : Error} (h : ¬ ∀ x ∈ (texts ts).head?, Closes x)
    (hread : parseStatement ts = ⟨.error e, rest, events⟩) :
    oneByOne ts = ⟨.error e, rest, events⟩ := by
  rw [oneByOne, if_neg h]
  split <;> simp_all

theorem oneByOne_step {s : Statement} (h : ¬ ∀ x ∈ (texts ts).head?, Closes x)
    (hread : parseStatement ts = ⟨.ok s, rest, events⟩) :
    oneByOne ts = ⟨(oneByOne rest).outcome.map (s :: ·), (oneByOne rest).rest,
      events ++ (oneByOne rest).events⟩ := by
  rw [oneByOne, if_neg h]
  split <;> simp_all

/-! ### A block at once -/

/-- From the outside the errors of a rule are located, and all else is the rule's. -/
theorem Rule.run_of_read {r : Rule α} {outcome : Except Failure α}
    (h : r.read ts = ⟨outcome, rest, events⟩) :
    r.run ts = ⟨outcome.mapError (located ts), rest, events⟩ := by
  rw [run, h]

/-- Tokens that are left end where all tokens end. -/
theorem Rule.lastPosition_of_suffix (h : rest <:+ ts) (hne : rest ≠ []) :
    lastPosition rest = lastPosition ts := by
  obtain ⟨used, rfl⟩ := h
  simp only [lastPosition, List.getLast?_append, List.getLast?_eq_some_getLast hne,
    Option.some_or]

/-- So a failure is the same error on tokens that are left as on all. -/
theorem Rule.located_of_suffix (h : rest <:+ ts) (hne : rest ≠ []) : located rest = located ts := by
  funext f
  cases f with
  | pastLast expected => rw [located, located, lastPosition_of_suffix h hne]
  | onToken position cause => rfl
  | refused v => rfl

/-- Behind a statement a block goes on as one of its own: if it fails, a token is left. -/
theorem run_block_of_suffix (h : rest <:+ ts) :
    (Rule.block nestingLimit).run rest =
      ⟨((Rule.block nestingLimit).read rest).outcome.mapError (Rule.located ts),
        ((Rule.block nestingLimit).read rest).rest,
        ((Rule.block nestingLimit).read rest).events⟩ := by
  cases rest with
  | nil =>
    rw [Rule.run, Rule.block, Rule.read_blockOf_end rfl]
    rfl
  | cons t more => rw [Rule.run, Rule.located_of_suffix h (List.cons_ne_nil t more)]

/-- **A block at once.** -/
theorem oneByOne_eq_run (ts : Tokens) : oneByOne ts = (Rule.block nestingLimit).run ts := by
  induction hn : ts.length using Nat.strongRecOn generalizing ts with
  | ind n ih =>
    cases hstop : Rule.atBlockEnd ts with
    | true =>
      rw [oneByOne_end (atBlockEnd_iff.1 hstop), Rule.run, Rule.block, Rule.read_blockOf_end hstop]
      rfl
    | false =>
      have hgoes : ¬ ∀ x ∈ (texts ts).head?, Closes x := by
        rw [← atBlockEnd_iff, hstop]
        exact Bool.false_ne_true
      have hkeeps := Rule.keeps_statement nestingLimit ts
      have hblock : (Rule.block nestingLimit).read ts =
          (do
            let s ← Rule.statement nestingLimit
            let ss ← Rule.block nestingLimit
            return s :: ss : Rule (List Statement)).read ts := Rule.read_blockOf_step hstop
      rcases hread : (Rule.statement nestingLimit).read ts with ⟨f | s, rest, events⟩
      · have hparse : parseStatement ts = ⟨.error (Rule.located ts f), rest, events⟩ :=
          Rule.run_of_read hread
        rw [oneByOne_failed hgoes hparse, Rule.run, hblock, Rule.read_bind, hread]
        rfl
      · have hparse : parseStatement ts = ⟨.ok s, rest, events⟩ := Rule.run_of_read hread
        have hlt := length_lt_of_parseStatement hparse
        rw [hread] at hkeeps
        rw [oneByOne_step hgoes hparse, ih rest.length (hn ▸ hlt) rest rfl,
          run_block_of_suffix hkeeps, Rule.run, hblock, Rule.read_bind, hread]
        simp only [Rule.read_bind]
        rcases (Rule.block nestingLimit).read rest with ⟨f | ss, rest', events'⟩
        · rfl
        · simp only [Rule.read_pure, List.append_nil]
          rfl

/-- A block, as a statement. -/
theorem parseBlock_eq_oneByOne (ts : Tokens) :
    parseBlock ts = (oneByOne ts).map Statement.block := by
  rw [oneByOne_eq_run]
  show ((Rule.block nestingLimit) >>= fun ss => pure (Statement.block ss)).run ts = _
  rw [Rule.run, Rule.run, Rule.read_bind]
  rcases (Rule.block nestingLimit).read ts with ⟨f | ss, rest, events⟩
  · rfl
  · simp only [Rule.read_pure, List.append_nil]
    rfl

/-! ### Statements from one cursor to the next -/

/-- **One statement from a cursor.**  If nothing is open, the reading is `parseStatement`,
    whatever token was the last before, unless no token is left.  A success leaves nothing
    open. -/
theorem Counted.reading?_statement {last : Position} (hlast : LastTaken [] ts last) :
    ((statement nestingLimit).read ⟨ts, last, 0⟩).reading? = some (parseStatement ts) ∧
      ∀ s, ((statement nestingLimit).read ⟨ts, last, 0⟩).outcome = .ok s →
        ((statement nestingLimit).read ⟨ts, last, 0⟩).cursor.opened = 0 := by
  have hmirrors := mirrors_statement (Nat.zero_add nestingLimit) [] ts last hlast rfl
  refine ⟨hmirrors.reading?_eq, ?_⟩
  generalize (statement nestingLimit).read ⟨ts, last, 0⟩ = x at hmirrors ⊢
  generalize (Rule.statement nestingLimit).read ts = y at hmirrors
  cases hmirrors with
  | took => exact fun _ _ => rfl
  | failed => exact nofun

/-- Statements are read up to `END`, `ELSE`, the end mark or the end of the list, or to a failure,
    in at most `turns` turns.  Each leaves a cursor, of which `renew` makes the one for the
    next. -/
def repeated (renew : Cursor → Cursor) : (turns : Nat) → Cursor → Record (List Statement)
  | 0, c =>
    if ∀ x ∈ (texts c.left).head?, Closes x then ⟨.ok [], c, [], []⟩
    else ⟨.error .bound, c, [], []⟩
  | turns + 1, c =>
    if ∀ x ∈ (texts c.left).head?, Closes x then ⟨.ok [], c, [], []⟩
    else
      match (Counted.statement nestingLimit).read (renew c) with
      | ⟨.error h, next, events, marks⟩ => ⟨.error h, next, events, marks⟩
      | ⟨.ok s, next, events, marks⟩ =>
        let others := repeated renew turns next
        ⟨others.outcome.map (s :: ·), others.cursor, events ++ others.events,
          marks ++ others.marks⟩

/-- One statement more, in front of those of a reading. -/
theorem Record.reading?_cons {x : Record (List Statement)} {y : Reading Error (List Statement)}
    (h : x.reading? = some y) (s : Statement) (events : List Event) (marks : List Mark) :
    Record.reading? ⟨x.outcome.map (s :: ·), x.cursor, events ++ x.events, marks ++ x.marks⟩ =
      some ⟨y.outcome.map (s :: ·), y.rest, events ++ y.events⟩ := by
  obtain ⟨(e | _ | _) | ss, c, events', marks'⟩ := x <;> cases h <;> rfl

/-- What `renew` makes of a cursor has the same tokens left, and opens nothing. -/
structure Cursor.Renewing (renew : Cursor → Cursor) : Prop where
  left : ∀ c, (renew c).left = c.left
  opened : ∀ c, c.opened = 0 → (renew c).opened = 0

/-- **Renewed or not.**  From a cursor with nothing open, statements are read as they are one by
    one. -/
theorem Cursor.Renewing.reading?_repeated {renew : Cursor → Cursor} (h : Renewing renew)
    {turns : Nat} {c : Cursor} (hopened : c.opened = 0) (hturns : c.left.length ≤ turns) :
    (repeated renew turns c).reading? = some (oneByOne c.left) := by
  induction turns generalizing c with
  | zero =>
    have hnil : c.left = [] := List.length_eq_zero_iff.1 (Nat.le_zero.1 hturns)
    have hstop : ∀ x ∈ (texts c.left).head?, Closes x := by
      rw [hnil]
      exact nofun
    rw [repeated, if_pos hstop, oneByOne_end hstop]
    rfl
  | succ turns ih =>
    by_cases hstop : ∀ x ∈ (texts c.left).head?, Closes x
    · rw [repeated, if_pos hstop, oneByOne_end hstop]
      rfl
    · -- Some token is left, so it does not matter which was the last.
      have hne : c.left ≠ [] := by
        intro hnil
        rw [hnil] at hstop
        exact hstop nofun
      have hrenewed : renew c = ⟨c.left, (renew c).last, 0⟩ := by
        rw [← h.left c, ← h.opened c hopened]
      have hlast : LastTaken [] c.left (renew c).last := by simp [LastTaken, hne]
      obtain ⟨hreading, hclosed⟩ := Counted.reading?_statement hlast
      rw [← hrenewed] at hreading hclosed
      rw [repeated, if_neg hstop]
      generalize (Counted.statement nestingLimit).read (renew c) = x at hreading hclosed
      obtain ⟨(e | _ | _) | s, next, events, marks⟩ := x
      · rw [oneByOne_failed hstop (Option.some.inj hreading).symm]
        rfl
      · cases hreading
      · cases hreading
      · have hparse := (Option.some.inj hreading).symm
        have hlt := length_lt_of_parseStatement hparse
        have hothers : (repeated renew turns next).reading? = some (oneByOne next.left) :=
          ih (hclosed s rfl) (Nat.le_of_lt_succ (Nat.lt_of_lt_of_le hlt hturns))
        rw [oneByOne_step hstop hparse]
        exact Record.reading?_cons hothers s events marks

/-- **Blocks, statement by statement.**  Whatever tokens there are, reading a block gives the
    children, or the error with its position and text, the tokens left and the events of single
    readings of statements, repeated up to a token that closes a block, to the end of the list
    or to a failure.  A block is read with one cursor that is fresh at its beginning, and a
    single statement from a fresh one.  With the cursors shown, both ways agree too: one that is
    carried on over all statements, whatever token was the last before it, and a fresh one for
    each. -/
theorem parseBlock_repeats_parseStatement (ts : Tokens) :
    parseBlock ts = (oneByOne ts).map Statement.block ∧
    (Entry.block.counted ts).reading? = some (parseBlock ts) ∧
    ((Counted.statement nestingLimit).read (.fresh ts)).reading? = some (parseStatement ts) ∧
    (∀ last, (repeated (fun c => c) ts.length ⟨ts, last, 0⟩).reading? = some (oneByOne ts)) ∧
    (repeated (fun c => .fresh c.left) ts.length (.fresh ts)).reading? = some (oneByOne ts) := by
  have hcarried : Cursor.Renewing fun c => c := ⟨fun _ => rfl, fun _ h => h⟩
  have hfresh : Cursor.Renewing fun c => .fresh c.left := ⟨fun _ => rfl, fun _ _ => rfl⟩
  refine ⟨parseBlock_eq_oneByOne ts, (Entry.block.counted_proper ts).1, ?_, fun last => ?_, ?_⟩
  · exact (Counted.reading?_statement (lastTaken_frontPosition ts)).1
  · exact hcarried.reading?_repeated rfl (Nat.le_refl _)
  · exact hfresh.reading?_repeated rfl (Nat.le_refl _)

end BlockLanguage
