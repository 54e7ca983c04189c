import BlockLanguage.Proofs.Acceptance

namespace BlockLanguage

/-!
# No token gets lost

A queue of tokens is looked at, taken from, added to and read from.  Whatever is done
with it, the tokens taken so far and the tokens left are those that were there and those
that were added, each once and in order; a reading that fails is no exception.

* `Rule.keeps_program` — what the rule of programs leaves is an end of what it was given;
* `Entry`, `Use` — the rules that read from a queue, and what is done with one;
* `Account`, `Account.record` — the tokens taken from a queue and those left in it;
* `Account.all_record` — what one use keeps, `Account.all_recordAll` — what a run keeps;
* `uses_conserve_tokens` — no token gets lost, doubled, changed or moved.
-/

/-! ### What the rules of programs leave -/

namespace Rule

theorem keeps_definition : definition.Keeps :=
  (keeps_token _ _).bind fun _ => (keeps_token _ _).bind fun _ => (keeps_require _ _ _).bind
    fun _ => (keeps_token _ _).bind fun _ => (keeps_block _).bind fun _ => (keeps_token _ _).bind
    fun _ => (keeps_closingName _ _ _).bind fun _ => (keeps_checked _).bind fun _ =>
    (keeps_emit _).bind fun _ => keeps_pure _

theorem keeps_define (context : Context) : (define context).Keeps := by
  intro ts
  simp only [define]
  split
  · exact (keeps_definition.bind fun _ => (keeps_require _ _ _).bind fun _ => keeps_pure _) ts
  · exact keeps_failAtFront _ _ ts

/-- What the rule of programs leaves is an end of what it was given. -/
theorem keeps_program : program.Keeps :=
  (keeps_token _ _).bind fun _ => (keeps_token _ _).bind fun _ => (keeps_token _ _).bind fun _ =>
    (keeps_iterate keeps_define _).bind fun _ => (keeps_token _ _).bind fun _ =>
    (keeps_block _).bind fun _ => (keeps_token _ _).bind fun _ => (keeps_closingName _ _ _).bind
    fun _ => keeps_endOfInput.bind fun _ => (keeps_emit _).bind fun _ => (keeps_checked _).bind
    fun _ => (keeps_checked _).bind fun _ => (keeps_checked _).bind fun _ => keeps_pure _

end Rule

/-! ### Uses of a queue -/

/-- A rule that reads from the front of a queue. -/
inductive Entry
  | statement
  | block
  | program
  deriving DecidableEq, Repr

namespace Entry

/-- The tokens that a reading leaves, whether it succeeds or not. -/
def rest : Entry → Tokens → Tokens
  | statement, ts => (parseStatement ts).rest
  | block, ts => (parseBlock ts).rest
  | program, ts => (parseProgram ts).rest

/-- A reading leaves an end of the queue. -/
theorem rest_suffix (e : Entry) (ts : Tokens) : e.rest ts <:+ ts := by
  cases e with
  | statement => exact Rule.keeps_statement nestingLimit ts
  | block => exact ((Rule.keeps_block nestingLimit).bind fun _ => Rule.keeps_pure _) ts
  | program => exact Rule.keeps_program ts

end Entry

/-- What is done with a queue of tokens. -/
inductive Use
  | front
  | dequeue
  | enqueue (t : Token)
  | parse (entry : Entry)
  deriving DecidableEq, Repr

namespace Use

/-- The tokens left in a queue after a use. -/
def left : Use → Tokens → Tokens
  | front, ts => ts
  | dequeue, ts => ts.dequeue.2
  | enqueue t, ts => ts.enqueue t
  | parse entry, ts => entry.rest ts

/-- The tokens that a use takes.  A reading takes the first ones, as many as there are
    fewer behind it. -/
def taken : Use → Tokens → Tokens
  | front, _ => []
  | dequeue, ts => ts.dequeue.1.toList
  | enqueue _, _ => []
  | parse entry, ts => ts.take (ts.length - (entry.rest ts).length)

/-- The tokens that a use adds. -/
def added : Use → Tokens
  | enqueue t => [t]
  | _ => []

/-- **One use.**  What is taken and what is left are what was there and what is added. -/
theorem taken_append_left (u : Use) (ts : Tokens) : u.taken ts ++ u.left ts = ts ++ u.added := by
  cases u with
  | front => simp [taken, left, added]
  | dequeue => cases ts <;> simp [taken, left, added, Tokens.dequeue]
  | enqueue t => simp [taken, left, added, Tokens.enqueue]
  | parse entry =>
    have hdrop := List.suffix_iff_eq_drop.1 (entry.rest_suffix ts)
    simp only [taken, left, added, List.append_nil]
    calc ts.take (ts.length - (entry.rest ts).length) ++ entry.rest ts
        = ts.take (ts.length - (entry.rest ts).length) ++
            ts.drop (ts.length - (entry.rest ts).length) := congrArg _ hdrop
      _ = ts := List.take_append_drop _ _

/-- A statement that is read has taken some token. -/
theorem taken_statement_ne_nil {ts : Tokens} {s : Statement}
    (h : (parseStatement ts).outcome = .ok s) : (parse .statement).taken ts ≠ [] := by
  have hshorter : (parseStatement ts).rest.length < ts.length :=
    Rule.progresses_statement nestingLimit ts s (Rule.outcome_run.1 h)
  intro hnil
  rw [taken, Entry.rest, List.take_eq_nil_iff] at hnil
  rcases hnil with hnone | rfl
  · omega
  · simp at hshorter

/-- A program that is read leaves no token. -/
theorem left_program_eq_nil {ts : Tokens} {p : Program} (h : (parseProgram ts).outcome = .ok p) :
    (parse .program).left ts = [] :=
  Rule.exhausts_program ts p (Rule.outcome_run.1 h)

end Use

/-! ### Runs of uses -/

/-- The tokens that have been taken from a queue, and those left in it. -/
structure Account where
  taken : Tokens
  left : Tokens
  deriving DecidableEq, Repr

namespace Account

/-- The account of a queue that has not been used. -/
def opened (ts : Tokens) : Account := ⟨[], ts⟩

/-- The account after a use. -/
def record (a : Account) (u : Use) : Account := ⟨a.taken ++ u.taken a.left, u.left a.left⟩

/-- The account after uses, one after the other. -/
def recordAll (a : Account) (us : List Use) : Account := us.foldl record a

theorem recordAll_append_singleton (a : Account) (us : List Use) (u : Use) :
    a.recordAll (us ++ [u]) = (a.recordAll us).record u := by
  simp [recordAll]

/-- All tokens, taken or left. -/
def all (a : Account) : Tokens := a.taken ++ a.left

/-- A use adds what it adds, and nothing else changes. -/
theorem all_record (a : Account) (u : Use) : (a.record u).all = a.all ++ u.added := by
  simp only [all, record, List.append_assoc, u.taken_append_left]

/-- **A run of uses** adds what its uses add, and nothing else changes. -/
theorem all_recordAll (a : Account) (us : List Use) :
    (a.recordAll us).all = a.all ++ us.flatMap Use.added := by
  induction us generalizing a with
  | nil => simp [recordAll]
  | cons u us ih =>
    have hbehind := ih (a.record u)
    rw [all_record] at hbehind
    rw [List.flatMap_cons, ← List.append_assoc]
    exact hbehind

end Account

/-- **No token gets lost.**  After any run of uses, each point of which is the end of a
    run, the tokens taken and the tokens left are those that were there at first and those
    added, in order.  A statement that is read next takes some token, and a program that is
    read next takes all that are left, so that all have been taken. -/
theorem uses_conserve_tokens (ts : Tokens) (us : List Use) :
    ((Account.opened ts).recordAll us).taken ++ ((Account.opened ts).recordAll us).left =
        ts ++ us.flatMap Use.added ∧
      (∀ s, (parseStatement ((Account.opened ts).recordAll us).left).outcome = .ok s →
        (Use.parse .statement).taken ((Account.opened ts).recordAll us).left ≠ []) ∧
      ∀ p, (parseProgram ((Account.opened ts).recordAll us).left).outcome = .ok p →
        ((Account.opened ts).recordAll (us ++ [.parse .program])).left = [] ∧
        ((Account.opened ts).recordAll (us ++ [.parse .program])).taken =
          ts ++ us.flatMap Use.added := by
  have hall : ∀ vs : List Use, ((Account.opened ts).recordAll vs).taken ++
      ((Account.opened ts).recordAll vs).left = ts ++ vs.flatMap Use.added := fun vs =>
    (Account.opened ts).all_recordAll vs
  refine ⟨hall us, fun s hs => Use.taken_statement_ne_nil hs, fun p hp => ?_⟩
  have hlast : ((Account.opened ts).recordAll (us ++ [.parse .program])).left = [] := by
    rw [Account.recordAll_append_singleton]
    exact Use.left_program_eq_nil hp
  have hboth := hall (us ++ [.parse .program])
  rw [hlast, List.append_nil, List.flatMap_append] at hboth
  refine ⟨hlast, hboth.trans ?_⟩
  simp [Use.added]

/-- A statement is read, and a program is asked for too early; once what is wanting has been
    added, it is read, and all tokens have been taken. -/
theorem uses_conserve_tokens_upon_failure :
    let ts := (tokenize "go ; PROGRAM A IS BEGIN END").dropLast
    let us : List Use := [.parse .statement, .parse .program, .enqueue ⟨"A", ⟨2, 1⟩⟩,
      .enqueue (.atEnd ⟨2, 2⟩)]
    ((parseStatement ((Account.opened ts).recordAll []).left).outcome = .ok (.call "go") ∧
      (Use.parse .statement).taken ((Account.opened ts).recordAll []).left ≠ []) ∧
    ((parseProgram ((Account.opened ts).recordAll us).left).outcome = .ok ⟨"A", .empty, .empty⟩ ∧
      ((Account.opened ts).recordAll (us ++ [.parse .program])).left = [] ∧
      ((Account.opened ts).recordAll (us ++ [.parse .program])).taken =
        ts ++ us.flatMap Use.added) := by
  intro ts us
  have hstatement : (parseStatement ((Account.opened ts).recordAll []).left).outcome =
      .ok (.call "go") := by decide +kernel
  have hprogram : (parseProgram ((Account.opened ts).recordAll us).left).outcome =
      .ok ⟨"A", .empty, .empty⟩ := by decide +kernel
  exact ⟨⟨hstatement, (uses_conserve_tokens ts []).2.1 _ hstatement⟩, hprogram,
    (uses_conserve_tokens ts us).2.2 _ hprogram⟩

end BlockLanguage
