import BlockLanguage.Proofs.InPlace
import BlockLanguage.Proofs.RoundTrip

namespace BlockLanguage

/-!
# Runs of exchanges

The parts of a program are exchanged in place by calls, each of which may be refused.
A run of calls keeps a program intact, whatever is asked for, and a part that made way
can always be put back.

* `Change` — what is done to a program in place, which stays done upon a failure;
* `Exchange`, `Released` — what a call asks for, and what it gives back;
* `Program.exchange`, `Program.exchangeAll` — one call, and a run of calls;
* `Program.exchange_eq` — a call in place answers as the checked exchange does;
* `Program.exchange_cases` — all that a call can do;
* `Program.Intact`, `Program.Exchangeable` — programs with proper parts, which can be
  exchanged and put back;
* `Program.exchanges_keep_intact` — what a run of calls keeps.
-/

/-! ### Changes in place -/

/-- Steps that change a program in place and may fail.  The program stays as it was
    left by the steps before the failure. -/
abbrev Change (α : Type) := ExceptT Violation (StateM Program) α

namespace Change

/-- Fails at the first entry that is forbidden. -/
def checkEntries : List (String × Statement) → Change Unit
  | [] => pure ()
  | e :: es =>
    match Program.entryViolation? e with
    | some v => throw v
    | none => checkEntries es

/-- The check of entries reports the first one that is forbidden and changes nothing. -/
theorem run_checkEntries (es : List (String × Statement)) (p : Program) :
    (checkEntries es).run.run p =
      match es.findSome? Program.entryViolation? with
      | some v => (.error v, p)
      | none => (.ok (), p) := by
  induction es with
  | nil => rfl
  | cons e es ih =>
    rw [List.findSome?_cons]
    cases h : Program.entryViolation? e with
    | some v =>
      rw [checkEntries, h]
      rfl
    | none =>
      rw [checkEntries, h]
      exact ih

end Change

/-! ### One call -/

/-- A call that asks for a new part of a program. -/
inductive Exchange
  | name (new : String)
  | context (new : Context)
  | body (new : Statement)

/-- What a call that succeeds gives back: the part that made way.  An old name is not
    given back. -/
inductive Released
  | nothing
  | context (old : Context)
  | body (old : Statement)

/-- What a call does: first its checks, then the change. -/
def Exchange.perform : Exchange → Change Released
  | .name new => do
    unless isIdentifier new do throw (.noIdentifier new)
    modify fun p => { p with name := new }
    return .nothing
  | .context new => do
    Change.checkEntries new.entries
    let p ← get
    set { p with context := new }
    return .context p.context
  | .body new => do
    unless new.isBlock do throw (.bodyNoBlock new.kind)
    if new.hasNestedBlock then throw .bodyHoldsBlock
    let p ← get
    set { p with body := new }
    return .body p.body

namespace Program

variable {p : Program}

/-- The answer to a call, and what it has made of the program. -/
def exchange (p : Program) (x : Exchange) : Except Violation Released × Program :=
  x.perform.run.run p

/-- The answer of the checked exchange: the program with the new part, and the part
    that made way. -/
def exchanged (p : Program) : Exchange → Except Violation (Program × Released)
  | .name new => (p.setName new).map fun q => (q, .nothing)
  | .context new => (p.swapContext new).map fun r => (r.1, .context r.2)
  | .body new => (p.swapBody new).map fun r => (r.1, .body r.2)

/-- A call in place answers as the checked exchange does, and leaves the program as it
    was if that one fails. -/
theorem exchange_eq (p : Program) (x : Exchange) :
    p.exchange x =
      match p.exchanged x with
      | .ok (q, released) => (.ok released, q)
      | .error v => (.error v, p) := by
  unfold exchange
  cases x with
  | name new =>
    rw [Exchange.perform, exchanged, setName]
    cases isIdentifier new with
    | true => rfl
    | false => rfl
  | context new =>
    have hchecks := Change.run_checkEntries new.entries p
    rw [Exchange.perform, exchanged, swapContext]
    cases hfound : new.entries.findSome? entryViolation? with
    | some v =>
      rw [hfound] at hchecks
      exact InPlace.run_bind_error hchecks
    | none =>
      rw [hfound] at hchecks
      rw [InPlace.run_bind_ok hchecks]
      rfl
  | body new =>
    rw [Exchange.perform, exchanged, swapBody]
    cases new.isBlock with
    | false => rfl
    | true =>
      cases new.hasNestedBlock with
      | true => rfl
      | false => rfl

/-- What a call asks for may be a part of a program. -/
def Accepts : Exchange → Prop
  | .name new => isIdentifier new = true
  | .context new => new.Allowed
  | .body new => new.isBlock = true ∧ new.hasNestedBlock = false

/-- The program with the part that a call asks for, and the part it had. -/
def replaced (p : Program) : Exchange → Program × Released
  | .name new => ({ p with name := new }, .nothing)
  | .context new => ({ p with context := new }, .context p.context)
  | .body new => ({ p with body := new }, .body p.body)

/-- An answer that is given on a condition, with its value changed. -/
theorem map_eq_ok_iff_of_unique {α β : Type} {answer : Except Violation α} {condition : Prop}
    {a : α} (h : ∀ b, answer = .ok b ↔ condition ∧ b = a) (f : α → β) {r : β} :
    answer.map f = .ok r ↔ condition ∧ r = f a := by
  rw [map_eq_ok_iff]
  constructor
  · intro hr
    obtain ⟨b, hb, rfl⟩ := hr
    obtain ⟨hcondition, rfl⟩ := (h b).1 hb
    exact ⟨hcondition, rfl⟩
  · intro hr
    obtain ⟨hcondition, rfl⟩ := hr
    exact ⟨a, (h a).2 ⟨hcondition, rfl⟩, rfl⟩

/-- A call succeeds exactly when what it asks for is accepted. -/
theorem exchanged_eq_ok_iff {x : Exchange} {r : Program × Released} :
    p.exchanged x = .ok r ↔ Accepts x ∧ r = p.replaced x := by
  cases x with
  | name new => exact map_eq_ok_iff_of_unique (fun _ => setName_eq_ok_iff) _
  | context new => exact map_eq_ok_iff_of_unique (fun _ => swapContext_eq_ok_iff) _
  | body new => exact map_eq_ok_iff_of_unique (fun _ => swapBody_eq_ok_iff) _

/-- **One call.**  A call puts in the part that it asks for and gives back the one that
    made way, or it is refused and changes nothing. -/
theorem exchange_cases (p : Program) (x : Exchange) :
    (Accepts x ∧ p.exchange x = (.ok (p.replaced x).2, (p.replaced x).1)) ∨
      (¬ Accepts x ∧ ∃ v, p.exchange x = (.error v, p)) := by
  rw [exchange_eq]
  cases h : p.exchanged x with
  | ok r =>
    obtain ⟨hx, rfl⟩ := exchanged_eq_ok_iff.1 h
    exact .inl ⟨hx, rfl⟩
  | error v =>
    refine .inr ⟨fun hx => ?_, v, rfl⟩
    rw [exchanged_eq_ok_iff.2 ⟨hx, rfl⟩] at h
    cases h

/-- A call that is accepted succeeds. -/
theorem exchange_of_accepts {x : Exchange} (h : Accepts x) :
    p.exchange x = (.ok (p.replaced x).2, (p.replaced x).1) := by
  rcases p.exchange_cases x with ⟨-, heq⟩ | ⟨hnot, -⟩
  · exact heq
  · exact absurd h hnot

/-- A call that succeeds puts in the part that it asks for. -/
theorem eq_replaced_of_exchange_ok {x : Exchange} {r : Released} {q : Program}
    (h : p.exchange x = (.ok r, q)) : Accepts x ∧ p.replaced x = (q, r) := by
  rcases p.exchange_cases x with ⟨hx, heq⟩ | ⟨-, v, heq⟩
  · rw [heq] at h
    cases h
    exact ⟨hx, rfl⟩
  · rw [heq] at h
    cases h

/-- A call that is refused changes nothing. -/
theorem eq_of_exchange_error {x : Exchange} {v : Violation} {q : Program}
    (h : p.exchange x = (.error v, q)) : q = p := by
  rcases p.exchange_cases x with ⟨-, heq⟩ | ⟨-, w, heq⟩
  · rw [heq] at h
    cases h
  · rw [heq] at h
    cases h
    rfl

/-! ### Runs of calls -/

/-- The program after calls, one after the other. -/
def exchangeAll (p : Program) (xs : List Exchange) : Program :=
  xs.foldl (fun q x => (q.exchange x).2) p

/-- A program that can be built is followed by one, whether the call succeeds or
    not. -/
theorem Reachable.exchange (h : p.Reachable) (x : Exchange) : (p.exchange x).2.Reachable := by
  rcases p.exchange_cases x with ⟨hx, heq⟩ | ⟨-, v, heq⟩
  · rw [heq]
    cases x with
    | name new => exact h.setName (setName_eq_ok_iff.2 ⟨hx, rfl⟩)
    | context new => exact h.swapContext (swapContext_eq_ok_iff.2 ⟨hx, rfl⟩)
    | body new => exact h.swapBody (swapBody_eq_ok_iff.2 ⟨hx, rfl⟩)
  · rw [heq]
    exact h

/-- A program that can be built is followed by one after any run of calls. -/
theorem Reachable.exchangeAll (h : p.Reachable) (xs : List Exchange) :
    (p.exchangeAll xs).Reachable := by
  induction xs generalizing p with
  | nil => exact h
  | cons x xs ih => exact ih (h.exchange x)

/-! ### Intact programs -/

/-- The program's name and the keys of its context are proper, its body and the values
    of its context are blocks, and no block stands beneath these. -/
structure Intact (p : Program) : Prop where
  named : isIdentifier p.name = true
  keys : ∀ e ∈ p.context.entries, isIdentifier e.1 = true ∧ isPrimitive e.1 = false
  values : ∀ e ∈ p.context.entries, e.2.isBlock = true ∧ ∀ s, e.2.Holds s → s.isBlock = false
  body : p.body.isBlock = true ∧ ∀ s, p.body.Holds s → s.isBlock = false

/-- A program whose parts have passed the checks of the exchanges is intact. -/
theorem WellFormed.intact (h : p.WellFormed) : p.Intact where
  named := h.named
  keys := fun e he => ⟨(h.context e he).named, (h.context e he).own⟩
  values := fun e he =>
    ⟨(h.context e he).block, Statement.hasNestedBlock_eq_false_iff.1 (h.context e he).flat⟩
  body := ⟨h.block, Statement.hasNestedBlock_eq_false_iff.1 h.flat⟩

/-- Calls change a program part by part: one that is refused changes nothing; one that
    succeeds changes the part that it is about and nothing else, and gives the old part
    back, with which it can be undone. -/
structure Exchangeable (p : Program) : Prop where
  refused : ∀ x v q, p.exchange x = (.error v, q) → q = p
  name : ∀ new r q, p.exchange (.name new) = (.ok r, q) → q = { p with name := new }
  context : ∀ new r q, p.exchange (.context new) = (.ok r, q) →
    r = .context p.context ∧ q = { p with context := new } ∧
      q.exchange (.context p.context) = (.ok (.context new), p)
  body : ∀ new r q, p.exchange (.body new) = (.ok r, q) →
    r = .body p.body ∧ q = { p with body := new } ∧
      q.exchange (.body p.body) = (.ok (.body new), p)

/-- The parts of a well-formed program can be exchanged and put back. -/
theorem WellFormed.exchangeable (h : p.WellFormed) : p.Exchangeable where
  refused _ _ _ hq := eq_of_exchange_error hq
  name := by
    intro new r q hq
    obtain ⟨-, heq⟩ := eq_replaced_of_exchange_ok hq
    cases heq
    rfl
  context := by
    intro new r q hq
    obtain ⟨-, heq⟩ := eq_replaced_of_exchange_ok hq
    cases heq
    -- The old context has been accepted before.
    exact ⟨rfl, rfl, exchange_of_accepts (x := .context _) h.context⟩
  body := by
    intro new r q hq
    obtain ⟨-, heq⟩ := eq_replaced_of_exchange_ok hq
    cases heq
    exact ⟨rfl, rfl, exchange_of_accepts (x := .body _) ⟨h.block, h.flat⟩⟩

/-- **Runs of exchanges.**  Started from the unnamed program or from one that has been
    read, any run of calls leaves an intact program, whose parts can be exchanged and
    put back. -/
theorem exchanges_keep_intact (start : Program)
    (h : start = unnamed ∨ ∃ source, parse source = .ok start) (xs : List Exchange) :
    (start.exchangeAll xs).Intact ∧ (start.exchangeAll xs).Exchangeable := by
  have hstart : start.Reachable := by
    rcases h with rfl | ⟨source, hread⟩
    · exact .unnamed
    · exact .parsed hread
  have hformed := (hstart.exchangeAll xs).wellFormed
  exact ⟨hformed.intact, hformed.exchangeable⟩

/-- A program that has been read takes over a context, but no block inside a block and
    no reserved word. -/
theorem exchanges_keep_intact_after_refusals :
    parse "PROGRAM A IS BEGIN go END A" = .ok ⟨"A", .empty, .block [.call "go"]⟩ ∧
      (Program.mk "A" .empty (.block [.call "go"])).exchangeAll
          [.body (.block [.ifElse .random [] [.block []]]), .name "IF",
            .context (Context.empty.insert "go" (.block []))] =
        ⟨"A", Context.empty.insert "go" (.block []), .block [.call "go"]⟩ ∧
      (Program.mk "A" (Context.empty.insert "go" (.block [])) (.block [.call "go"])).Intact ∧
      (Program.mk "A" (Context.empty.insert "go" (.block []))
        (.block [.call "go"])).Exchangeable := by
  have hread : parse "PROGRAM A IS BEGIN go END A" = .ok ⟨"A", .empty, .block [.call "go"]⟩ := by
    decide +kernel
  have hrun : (Program.mk "A" .empty (.block [.call "go"])).exchangeAll
      [.body (.block [.ifElse .random [] [.block []]]), .name "IF",
        .context (Context.empty.insert "go" (.block []))] =
      ⟨"A", Context.empty.insert "go" (.block []), .block [.call "go"]⟩ := by decide +kernel
  have hkeep := exchanges_keep_intact _ (.inr ⟨_, hread⟩)
    [.body (.block [.ifElse .random [] [.block []]]), .name "IF",
      .context (Context.empty.insert "go" (.block []))]
  rw [hrun] at hkeep
  exact ⟨hread, hrun, hkeep⟩

end Program

end BlockLanguage
