import BlockLanguage.Proofs.Counted
import BlockLanguage.Proofs.Depth

namespace BlockLanguage

/-!
# The counter counts what is open

A reading with a cursor is a reading without one: neither the counter nor a bound stops it, and
the position carried along is that of the last token taken, so that errors are located alike.
Whenever a statement or a block is read, the counter tells how many branches and loops the words
taken so far leave open, and a success leaves it where it was; so what is read depends on what is
left of the limit, and not on what stands in front.

* `Mark.Proper` — what is shown of the values of the counter and of the calls;
* `LastTaken` — what is shown of the position carried along;
* `Record.Mirrors`, `Counted.Mirrors` — a rule with a cursor goes along with one without;
* `Rule.Still` — the rules that take no token;
* `Counted.Mirrors.bind`, `Counted.mirrors_token`, `Counted.mirrors_called`,
  `Counted.mirrors_nested` — rules behind each other, a token taken, recorded calls, and the
  counter put up and down;
* `Counted.mirrors_statement`, `Counted.mirrors_program` — the rules of the grammar;
* `counter_tells_openings` — the counter, and where it is at its limit.
-/

variable {α β : Type}

/-! ### What is shown -/

/-- What a reading leaves, if it succeeds. -/
def Reading.left? {ε : Type} (x : Reading ε α) : Option Tokens :=
  match x.outcome with
  | .ok _ => some x.rest
  | .error _ => none

/-- What a rule leaves under a budget, if it succeeds. -/
def Callee.left? : Callee → Nat → Tokens → Option Tokens
  | statement, budget, ts => ((Rule.statement budget).read ts).left?
  | block, budget, ts => ((Rule.block budget).read ts).left?

/-- What a reading of the tokens `all` records is in order.  A value of the counter is within the
    limit.  At a call the counter is, and tells how many compound statements are open behind the
    tokens taken; the call succeeds, and leaves tokens, as the rule does under what is left of
    the limit, and it leaves the counter as it was. -/
def Mark.Proper (all : Tokens) : Mark → Prop
  | counter value => value ≤ nestingLimit
  | call c => ∃ before, all = before ++ c.given ∧ depthOf (texts before) = .inside c.counter ∧
      c.counter ≤ nestingLimit ∧
      c.returned = (c.callee.left? (nestingLimit - c.counter) c.given).map fun rest =>
        (c.counter, rest)

/-- The position `last` is that of the last token of `taken`.  As long as none has been taken and
    there are some to take, it may be any. -/
def LastTaken (taken left : Tokens) (last : Position) : Prop :=
  taken ≠ [] ∨ left = [] → last = Rule.lastPosition taken

theorem lastTaken_append_singleton (taken left : Tokens) (t : Token) :
    LastTaken (taken ++ [t]) left t.position := fun _ => by simp [Rule.lastPosition]

/-- A fresh cursor of no tokens has the position at which a text begins. -/
theorem lastTaken_frontPosition (ts : Tokens) : LastTaken [] ts ts.frontPosition := by
  rintro (h | rfl)
  · exact absurd rfl h
  · rfl

/-- A failure is the same error there as on all tokens, if it is for want of a token only where
    none is left. -/
theorem LastTaken.located_eq {taken ts : Tokens} {last : Position} (h : LastTaken taken ts last)
    {f : Failure} (hwant : ∀ expected, f = .pastLast expected → ts = []) :
    Rule.located (taken ++ ts) f = f.errorAt last := by
  cases f with
  | pastLast expected =>
    obtain rfl := hwant expected rfl
    rw [List.append_nil, Rule.located, ← h (.inr rfl)]
    rfl
  | onToken position cause => rfl
  | refused v => rfl

/-- An answer with a cursor is that of a rule without one, on the tokens `ts` behind `taken`.
    What is recorded is in order.  Behind a success the counter is `d`, the depth `l`, and the
    last position that of the last token taken; a failure is located as on all tokens. -/
inductive Record.Mirrors (taken ts : Tokens) (d : Nat) (l : Depth) :
    Reading Failure α → Record α → Prop
  | took {used rest : Tokens} {a : α} {last : Position} {events : List Event} {marks : List Mark}
      (split : ts = used ++ rest) (depth : depthOf (texts (taken ++ used)) = l)
      (behind : LastTaken (taken ++ used) rest last)
      (proper : ∀ m ∈ marks, m.Proper (taken ++ ts)) :
      Mirrors taken ts d l ⟨.ok a, rest, events⟩ ⟨.ok a, ⟨rest, last, d⟩, events, marks⟩
  | failed {f : Failure} {e : Error} {rest : Tokens} {last : Position} {d' : Nat}
      {events : List Event} {marks : List Mark} (error : Rule.located (taken ++ ts) f = e)
      (proper : ∀ m ∈ marks, m.Proper (taken ++ ts)) :
      Mirrors taken ts d l ⟨.error f, rest, events⟩
        ⟨.error (.failed e), ⟨rest, last, d'⟩, events, marks⟩

/-- The rule `w` with a cursor goes along with `r` from the counter `d` at the depth `l` on;
    behind a success it has come to `d'` and `l'`. -/
def Counted.Mirrors (d : Nat) (l : Depth) (w : Counted α) (r : Rule α) (d' : Nat) (l' : Depth) :
    Prop :=
  ∀ taken ts last, LastTaken taken ts last → depthOf (texts taken) = l →
    (w.read ⟨ts, last, d⟩).Mirrors taken ts d' l' (r.read ts)

variable {d d' d₁ : Nat} {l l' l₁ : Depth}

/-! ### Rules that take no token -/

/-- An answer that leaves all tokens, and is for want of a token only if there is none. -/
inductive Reading.Still (ts : Tokens) : Reading Failure α → Prop
  | ok {a : α} {events : List Event} : Still ts ⟨.ok a, ts, events⟩
  | failed {f : Failure} {events : List Event}
      (want : ∀ expected, f = .pastLast expected → ts = []) : Still ts ⟨.error f, ts, events⟩

namespace Rule

/-- All answers of the rule leave all tokens. -/
def Still (r : Rule α) : Prop := ∀ ts, (r.read ts).Still ts

theorem still_pure (a : α) : (pure a : Rule α).Still := fun _ => .ok

theorem still_lookAhead (f : Tokens → α) : (lookAhead f).Still := fun _ => .ok

theorem still_emit (event : Event) : (emit event).Still := fun _ => .ok

theorem still_checked (answer : Except Violation α) : (checked answer).Still := fun _ => by
  cases answer with
  | ok a => exact .ok
  | error v => exact .failed nofun

theorem still_failAt (position : Position) (cause : Cause) :
    (failAt position cause : Rule α).Still := fun _ => .failed nofun

theorem still_require (holds : Bool) (position : Position) (cause : Cause) :
    (require holds position cause).Still := by
  cases holds with
  | true => exact still_pure ()
  | false => exact still_failAt position cause

theorem still_failAtFront (expected : Expected) (cause : String → Cause) :
    (failAtFront expected cause : Rule α).Still := by
  rintro (_ | ⟨t, ts⟩)
  · exact .failed fun _ _ => rfl
  · exact .failed nofun

theorem still_conditionOf (t : Token) : (conditionOf t).Still := by
  unfold conditionOf
  cases Condition.ofText t.text with
  | ok c => exact still_pure c
  | error _ => exact still_failAt _ _

theorem still_nothing (t : Option Token) : (nothing t).Still := by
  cases t with
  | none => exact still_pure ()
  | some t => exact still_failAt _ _

end Rule

/-! ### Rules behind each other -/

namespace Record.Mirrors

/-- One reading behind another, on given tokens. -/
theorem bind {w : Counted α} {r : Rule α} {f : α → Counted β} {g : α → Rule β}
    {taken ts : Tokens} {last : Position}
    (h : (w.read ⟨ts, last, d⟩).Mirrors taken ts d₁ l₁ (r.read ts))
    (hf : ∀ a used last₁, (r.read ts).outcome = .ok a → ts = used ++ (r.read ts).rest →
      LastTaken (taken ++ used) (r.read ts).rest last₁ → depthOf (texts (taken ++ used)) = l₁ →
      ((f a).read ⟨(r.read ts).rest, last₁, d₁⟩).Mirrors (taken ++ used) (r.read ts).rest d' l'
        ((g a).read (r.read ts).rest)) :
    ((w >>= f).read ⟨ts, last, d⟩).Mirrors taken ts d' l' ((r >>= g).read ts) := by
  rw [Counted.read_bind, Rule.read_bind]
  generalize w.read ⟨ts, last, d⟩ = x at h
  generalize r.read ts = y at h hf
  cases h with
  | failed error proper => exact .failed error proper
  | @took used rest a last₁ events marks split depth behind proper =>
    have hsecond : ((f a).read ⟨rest, last₁, d₁⟩).Mirrors (taken ++ used) rest d' l'
        ((g a).read rest) := hf a used last₁ rfl split behind depth
    have hall : taken ++ used ++ rest = taken ++ ts := by rw [split, List.append_assoc]
    simp only
    generalize (f a).read ⟨rest, last₁, d₁⟩ = x' at hsecond
    generalize (g a).read rest = y' at hsecond
    cases hsecond with
    | failed error' proper' =>
      rw [hall] at error' proper'
      exact .failed error' (List.forall_mem_append.2 ⟨proper, proper'⟩)
    | @took used' _ _ _ _ _ split' depth' behind' proper' =>
      rw [hall] at proper'
      rw [split', ← List.append_assoc] at split
      rw [List.append_assoc] at depth' behind'
      exact .took split depth' behind' (List.forall_mem_append.2 ⟨proper, proper'⟩)

end Record.Mirrors

namespace Counted

/-- **One rule behind another.** -/
theorem Mirrors.bind {w : Counted α} {r : Rule α} {f : α → Counted β} {g : α → Rule β}
    (h : w.Mirrors d l r d₁ l₁) (hf : ∀ a, (f a).Mirrors d₁ l₁ (g a) d' l') :
    (w >>= f).Mirrors d l (r >>= g) d' l' := fun taken ts last hlast hl =>
  (h taken ts last hlast hl).bind fun a _ _ _ _ hlast₁ hl₁ => hf a _ _ _ hlast₁ hl₁

/-- A rule that takes no token. -/
theorem mirrors_plain {r : Rule α} (h : r.Still) : (plain r).Mirrors d l r d l := by
  intro taken ts last hlast hl
  have hstill := h ts
  simp only [plain]
  generalize r.read ts = y at hstill
  cases hstill with
  | ok =>
    exact .took (List.nil_append ts).symm (by rwa [List.append_nil]) (by rwa [List.append_nil])
      nofun
  | failed want => exact .failed (hlast.located_eq want) nofun

theorem mirrors_pure (a : α) : (pure a : Counted α).Mirrors d l (pure a) d l :=
  mirrors_plain (Rule.still_pure a)

/-! ### Tokens taken -/

/-- **A token taken.**  Its position is the last one from here on. -/
theorem mirrors_token {expected : Expected} {accept : Token → Option α}
    (h : ∀ t a, accept t = some a → l.step t.text = l') :
    (token expected accept).Mirrors d l (Rule.token expected accept) d l' := by
  rintro taken (_ | ⟨t, ts⟩) last hlast hl
  · rw [Rule.read_token_nil]
    exact .failed (hlast.located_eq fun _ _ => rfl) nofun
  · cases ha : accept t with
    | none =>
      have hread : (token expected accept).read ⟨t :: ts, last, d⟩ =
          ⟨.error (.failed (.malformed ⟨t.position, .unexpected expected t.text⟩)),
            ⟨ts, t.position, d⟩, [], []⟩ := by
        simp only [token, read_bind, advance, plain, Rule.valueOf, ha]
        rfl
      rw [Rule.read_token_none expected ha, hread]
      exact .failed rfl nofun
    | some a =>
      have hread : (token expected accept).read ⟨t :: ts, last, d⟩ =
          ⟨.ok a, ⟨ts, t.position, d⟩, [], []⟩ := by
        simp only [token, read_bind, advance, plain, Rule.valueOf, ha]
        rfl
      have hdepth : depthOf (texts (taken ++ [t])) = l' := by
        rw [texts_append, texts_cons, texts_nil, depthOf_append_singleton, hl]
        exact h t a ha
      rw [Rule.read_token_some expected ha, hread]
      exact .took (List.singleton_append).symm hdepth (lastTaken_append_singleton taken ts t) nofun

/-- The same where a token has a value if it passes a test. -/
theorem mirrors_token_if {expected : Expected} {p : Token → Prop} [DecidablePred p]
    {value : Token → α} (h : ∀ t, p t → l.step t.text = l') :
    (token expected fun t => if p t then some (value t) else none).Mirrors d l
      (Rule.token expected fun t => if p t then some (value t) else none) d l' := by
  refine mirrors_token fun t a ht => ?_
  split at ht
  · next hp => exact h t hp
  · cases ht

theorem mirrors_keyword (k : Keyword) :
    (keyword k).Mirrors d l (Rule.keyword k) d (l.step k.text) :=
  mirrors_token_if fun _ htext => congrArg l.step htext

/-- A reserved word that neither opens nor closes anything. -/
theorem mirrors_keyword_of_ne {k : Keyword} (hcompound : ¬ Compound k.text) (hend : k ≠ .end_) :
    (keyword k).Mirrors d l (Rule.keyword k) d ⟨l.opened, false⟩ := by
  have h := mirrors_keyword (d := d) (l := l) k
  rwa [Depth.step_keyword_of_ne hcompound hend] at h

/-- Behind `END` as much is open as before; the next word tells what it ends. -/
theorem mirrors_end : (keyword .end_).Mirrors d l (Rule.keyword .end_) d ⟨l.opened, true⟩ := by
  have h := mirrors_keyword (d := d) (l := l) .end_
  rwa [Depth.step_end] at h

theorem mirrors_identifier (role : Role) :
    (identifier role).Mirrors d l (Rule.identifier role) d ⟨l.opened, false⟩ :=
  mirrors_token_if fun _ hname => Depth.step_of_isIdentifier hname

theorem mirrors_condition (after : Keyword) :
    (condition after).Mirrors d l (Rule.condition after) d ⟨l.opened, false⟩ := by
  have hstep : ∀ t : Token, isCondition t.text = true → l.step t.text = ⟨l.opened, false⟩ := by
    intro t ht
    obtain ⟨c, htext⟩ := isCondition_iff.1 ht
    rw [← htext]
    exact l.step_condition c
  exact (mirrors_token_if hstep).bind fun t => mirrors_plain (Rule.still_conditionOf t)

theorem mirrors_endOfInput : endOfInput.Mirrors d l Rule.endOfInput d ⟨l.opened, false⟩ := by
  have hstep : ∀ t : Token, t.isEnd = true → l.step t.text = ⟨l.opened, false⟩ := by
    intro t ht
    have htext : t.text = endMark := by simpa [Token.isEnd] using ht
    rw [htext]
    exact Depth.step_of_ne (by decide) (by decide)
  exact (mirrors_token_if hstep).bind fun _ => (mirrors_plain (Rule.still_lookAhead _)).bind
    fun _ => mirrors_plain (Rule.still_nothing _)

/-! ### The counter and the calls -/

/-- Where the counter is at its limit, nothing is opened. -/
theorem mirrors_nested_full (hd : nestingLimit ≤ d) (compound : Counted Statement) :
    (nested compound).Mirrors d l (Rule.failAtFront .statement fun _ => .tooDeep) d l := by
  intro taken ts last hlast _
  simp only [nested, read_bind, enter, if_pos hd]
  cases ts with
  | nil => exact .failed (hlast.located_eq fun _ _ => rfl) nofun
  | cons t more => exact .failed rfl nofun

/-- **The counter put up and down.** -/
theorem mirrors_nested (hd : d < nestingLimit) {compound : Counted Statement}
    {r : Rule Statement} (h : compound.Mirrors (d + 1) l r (d + 1) l') :
    (nested compound).Mirrors d l r d l' := by
  intro taken ts last hlast hl
  have hinner := h taken ts last hlast hl
  have hup : Mark.Proper (taken ++ ts) (.counter (d + 1)) := hd
  have hdown : Mark.Proper (taken ++ ts) (.counter d) := Nat.le_of_lt hd
  generalize hx : compound.read ⟨ts, last, d + 1⟩ = x at hinner
  generalize r.read ts = y at hinner
  cases hinner with
  | @failed f e rest last' depth events marks error proper =>
    have hread : (nested compound).read ⟨ts, last, d⟩ =
        ⟨.error (.failed e), ⟨rest, last', depth⟩, events, .counter (d + 1) :: marks⟩ := by
      simp [nested, read_bind, enter, Nat.not_le_of_lt hd, hx]
    rw [hread]
    exact .failed error (List.forall_mem_cons.2 ⟨hup, proper⟩)
  | @took used rest a last' events marks split depth behind proper =>
    have hread : (nested compound).read ⟨ts, last, d⟩ =
        ⟨.ok a, ⟨rest, last', d⟩, events, .counter (d + 1) :: (marks ++ [.counter d])⟩ := by
      simp [nested, read_bind, enter, leave, Nat.not_le_of_lt hd, hx]
    rw [hread]
    refine .took split depth behind
      (List.forall_mem_cons.2 ⟨hup, List.forall_mem_append.2 ⟨proper, ?_⟩⟩)
    exact List.forall_mem_singleton.2 hdown

/-- **A recorded call** under what is left of the limit. -/
theorem mirrors_called {callee : Callee} {budget : Nat} (hd : d + budget = nestingLimit)
    {w : Counted α} {r : Rule α} (hleft : ∀ ts, callee.left? budget ts = (r.read ts).left?)
    (h : w.Mirrors d (.inside d) r d (.inside d)) :
    (called callee w).Mirrors d (.inside d) r d (.inside d) := by
  intro taken ts last hlast hl
  have hread := h taken ts last hlast hl
  have hbudget : nestingLimit - d = budget := by omega
  have hlimit : d ≤ nestingLimit := by omega
  have hreturned := hleft ts
  simp only [called]
  generalize w.read ⟨ts, last, d⟩ = x at hread
  generalize r.read ts = y at hread hreturned
  cases hread with
  | failed error proper =>
    refine .failed error (List.forall_mem_append.2 ⟨proper, List.forall_mem_singleton.2 ?_⟩)
    refine ⟨taken, rfl, hl, hlimit, ?_⟩
    simp [hbudget, hreturned, Reading.left?]
  | took split depth behind proper =>
    refine .took split depth behind
      (List.forall_mem_append.2 ⟨proper, List.forall_mem_singleton.2 ?_⟩)
    refine ⟨taken, rfl, hl, hlimit, ?_⟩
    simp [hbudget, hreturned, Reading.left?]

/-! ### Statements and blocks -/

/-- The rules for what stands inside a statement: none at the limit, else rules of blocks that
    go along with each other one depth further in. -/
def MirrorsInside (d : Nat) (w : Counted (List Statement)) :
    Option (Rule (List Statement)) → Prop
  | none => nestingLimit ≤ d
  | some r => d < nestingLimit ∧ w.Mirrors (d + 1) (.inside (d + 1)) r (d + 1) (.inside (d + 1))

variable {inner : Counted (List Statement)} {inner' : Rule (List Statement)}

theorem mirrors_closing {k : Keyword} (hk : Compound k.text) :
    (closing k).Mirrors (d + 1) (.inside (d + 1)) (Rule.closing k) (d + 1) (.inside d) := by
  have hdepth : (⟨(Depth.inside (d + 1)).opened, true⟩ : Depth).step k.text = .inside d := by
    rw [Depth.step_closing hk]
    simp
  exact mirrors_end.bind fun _ => hdepth ▸ mirrors_keyword k

theorem mirrors_opening {k : Keyword} (hk : Compound k.text) :
    (keyword k).Mirrors (d + 1) (.inside d) (Rule.keyword k) (d + 1) (.inside (d + 1)) := by
  have h := mirrors_keyword (d := d + 1) (l := .inside d) k
  rwa [Depth.step_opening hk] at h

theorem mirrors_loop
    (h : inner.Mirrors (d + 1) (.inside (d + 1)) inner' (d + 1) (.inside (d + 1))) :
    (loop inner).Mirrors (d + 1) (.inside d) (Rule.loop inner') (d + 1) (.inside d) :=
  (mirrors_opening (.inl rfl)).bind fun _ => (mirrors_condition _).bind fun _ =>
    (mirrors_keyword_of_ne (by decide) (by decide)).bind fun _ =>
    h.bind fun _ =>
    (mirrors_closing (.inl rfl)).bind fun _ => mirrors_plain (Rule.still_checked _)

theorem mirrors_branchEnd
    (h : inner.Mirrors (d + 1) (.inside (d + 1)) inner' (d + 1) (.inside (d + 1)))
    (c : Condition) (thenBody : List Statement) (hasElse : Bool) :
    (branchEnd inner c thenBody hasElse).Mirrors (d + 1) (.inside (d + 1))
      (Rule.branchEnd inner' c thenBody hasElse) (d + 1) (.inside d) := by
  cases hasElse with
  | false =>
    exact (mirrors_closing (.inr rfl)).bind fun _ => mirrors_plain (Rule.still_checked _)
  | true =>
    exact (mirrors_keyword_of_ne (by decide) (by decide)).bind fun _ =>
    h.bind fun _ =>
      (mirrors_closing (.inr rfl)).bind fun _ => mirrors_plain (Rule.still_checked _)

theorem mirrors_branch
    (h : inner.Mirrors (d + 1) (.inside (d + 1)) inner' (d + 1) (.inside (d + 1))) :
    (branch inner).Mirrors (d + 1) (.inside d) (Rule.branch inner') (d + 1) (.inside d) :=
  (mirrors_opening (.inr rfl)).bind fun _ => (mirrors_condition _).bind fun _ =>
    (mirrors_keyword_of_ne (by decide) (by decide)).bind fun _ =>
    h.bind fun _ =>
    (mirrors_plain (Rule.still_lookAhead _)).bind fun _ => mirrors_branchEnd h _ _ _

theorem mirrors_opened {inner' : Option (Rule (List Statement))}
    (h : MirrorsInside d inner inner') {compound : Counted (List Statement) → Counted Statement}
    {compound' : Rule (List Statement) → Rule Statement}
    (hcompound : ∀ {r}, inner.Mirrors (d + 1) (.inside (d + 1)) r (d + 1) (.inside (d + 1)) →
      (compound inner).Mirrors (d + 1) (.inside d) (compound' r) (d + 1) (.inside d)) :
    (nested (compound inner)).Mirrors d (.inside d) (Rule.opened inner' compound') d
      (.inside d) := by
  cases inner' with
  | none => exact mirrors_nested_full h _
  | some r => exact mirrors_nested h.1 (hcompound h.2)

theorem mirrors_call : call.Mirrors d l Rule.call d ⟨l.opened, false⟩ :=
  (mirrors_identifier _).bind fun _ => mirrors_pure _

theorem mirrors_selected {inner' : Option (Rule (List Statement))}
    (h : MirrorsInside d inner inner') :
    (selected inner).Mirrors d (.inside d) (Rule.selected inner') d (.inside d) := by
  intro taken ts last hlast hl
  simp only [selected, Rule.selected]
  split
  · exact mirrors_opened h mirrors_loop taken ts last hlast hl
  · split
    · exact mirrors_opened h mirrors_branch taken ts last hlast hl
    · split
      · exact mirrors_call taken ts last hlast hl
      · exact mirrors_plain (Rule.still_failAtFront _ _) taken ts last hlast hl

theorem mirrors_statementOver {budget : Nat} (hd : d + budget = nestingLimit)
    {inner' : Option (Rule (List Statement))} (h : MirrorsInside d inner inner')
    (hbudget : Rule.statement budget = Rule.statementOver inner') :
    (statementOver inner).Mirrors d (.inside d) (Rule.statementOver inner') d (.inside d) := by
  refine mirrors_called hd (fun ts => ?_) <| (mirrors_selected h).bind fun _ =>
    (mirrors_plain (Rule.still_emit _)).bind fun _ => mirrors_pure _
  rw [Callee.left?, hbudget]

/-- The statements of a block, where as many turns are left as tokens. -/
theorem mirrors_statements {item : Counted Statement} {item' : Rule Statement}
    {progress : item'.Progresses} (h : item.Mirrors d (.inside d) item' d (.inside d))
    (turns : Nat) (taken ts : Tokens) (last : Position) (hturns : ts.length ≤ turns)
    (hlast : LastTaken taken ts last) (hl : depthOf (texts taken) = .inside d) :
    ((statements item turns).read ⟨ts, last, d⟩).Mirrors taken ts d (.inside d)
      ((Rule.blockOf item' progress).read ts) := by
  induction turns generalizing taken ts last with
  | zero =>
    obtain rfl : ts = [] := List.length_eq_zero_iff.1 (Nat.le_zero.1 hturns)
    rw [Rule.read_blockOf_end rfl]
    exact mirrors_pure [] taken [] last hlast hl
  | succ turns ih =>
    simp only [statements, unlessEnd]
    split
    · next hstop =>
      rw [Rule.read_blockOf_end hstop]
      exact mirrors_pure [] taken ts last hlast hl
    · next hstop =>
      rw [Rule.read_blockOf_step (by simpa using hstop)]
      refine (h taken ts last hlast hl).bind fun s used last₁ hs hts hlast₁ hdepth => ?_
      have hlt := progress ts s hs
      exact (ih _ _ _ (by omega) hlast₁ hdepth).bind fun ss _ _ _ _ hlast' hl' =>
        mirrors_pure _ _ _ _ hlast' hl'

theorem mirrors_blockOf {budget : Nat} (hd : d + budget = nestingLimit)
    {item : Counted Statement}
    (h : item.Mirrors d (.inside d) (Rule.statement budget) d (.inside d)) :
    (blockOf item).Mirrors d (.inside d) (Rule.block budget) d (.inside d) :=
  mirrors_called hd (fun _ => rfl) fun taken ts last hlast hl =>
    mirrors_statements h ts.length taken ts last (Nat.le_refl _) hlast hl

/-- **Statements.**  The counter and the budget are at their limit together. -/
theorem mirrors_statement {budget : Nat} (hd : d + budget = nestingLimit) :
    (statement budget).Mirrors d (.inside d) (Rule.statement budget) d (.inside d) := by
  induction budget generalizing d with
  | zero => exact mirrors_statementOver hd (Nat.le_of_eq hd.symm) rfl
  | succ budget ih =>
    have hinside : d + 1 + budget = nestingLimit := by omega
    have hlt : d < nestingLimit := by omega
    exact mirrors_statementOver hd ⟨hlt, mirrors_blockOf hinside (ih hinside)⟩ rfl

theorem mirrors_block :
    block.Mirrors 0 (.inside 0) (Rule.block nestingLimit) 0 (.inside 0) :=
  mirrors_blockOf (Nat.zero_add _) (mirrors_statement (Nat.zero_add _))

/-! ### Programs -/

theorem mirrors_closingName (of : Section) (role : Role) (opening : Token) :
    (closingName of role opening).Mirrors d l (Rule.closingName of role opening) d
      ⟨l.opened, false⟩ :=
  (mirrors_identifier role).bind fun _ => mirrors_plain (Rule.still_require _ _ _)

theorem mirrors_definition :
    definition.Mirrors 0 (.inside 0) Rule.definition 0 (.inside 0) :=
  (mirrors_keyword_of_ne (by decide) (by decide)).bind fun _ => (mirrors_identifier _).bind fun _ =>
    (mirrors_plain (Rule.still_require _ _ _)).bind fun _ =>
    (mirrors_keyword_of_ne (by decide) (by decide)).bind fun _ => mirrors_block.bind fun _ =>
    mirrors_end.bind fun _ => (mirrors_closingName _ _ _).bind fun _ =>
    (mirrors_plain (Rule.still_checked _)).bind fun _ => (mirrors_plain (Rule.still_emit _)).bind
    fun _ => mirrors_pure _

theorem mirrors_define (context : Context) :
    (define context).Mirrors 0 (.inside 0) (Rule.define context) 0 (.inside 0) := by
  have hdefined : (defined context).Mirrors 0 (.inside 0) (Rule.defined context) 0 (.inside 0) :=
    mirrors_definition.bind fun _ => (mirrors_plain (Rule.still_require _ _ _)).bind fun _ =>
      mirrors_pure _
  intro taken ts last hlast hl
  simp only [define, Rule.define]
  split
  · exact hdefined taken ts last hlast hl
  · exact mirrors_plain (Rule.still_failAtFront _ _) taken ts last hlast hl

/-- Definitions, where more turns are left than tokens. -/
theorem mirrors_definitionsFrom (turns : Nat) (context : Context) (taken ts : Tokens)
    (last : Position) (hturns : ts.length < turns) (hlast : LastTaken taken ts last)
    (hl : depthOf (texts taken) = .inside 0) :
    ((definitionsFrom turns context).read ⟨ts, last, 0⟩).Mirrors taken ts 0 (.inside 0)
      ((Rule.iterate (Rule.startsWith .begin) Rule.define Rule.progresses_define context).read
        ts) := by
  induction turns generalizing context taken ts last with
  | zero => exact absurd hturns (Nat.not_lt_zero _)
  | succ turns ih =>
    simp only [definitionsFrom, unlessBegin]
    split
    · next hstop =>
      rw [Rule.read_iterate_stop hstop]
      exact mirrors_pure context taken ts last hlast hl
    · next hstop =>
      rw [Rule.read_iterate_step (by simpa using hstop)]
      refine (mirrors_define context taken ts last hlast hl).bind
        fun c used last₁ hc hts hlast₁ hdepth => ?_
      have hlt := Rule.progresses_define context ts c hc
      exact ih _ _ _ _ (by omega) hlast₁ hdepth

/-- **Programs.** -/
theorem mirrors_program :
    program.Mirrors 0 (.inside 0) Rule.program 0 (.inside 0) := by
  have hdefinitions : definitions.Mirrors 0 (.inside 0) Rule.definitions 0 (.inside 0) :=
    fun taken ts last hlast hl =>
      mirrors_definitionsFrom _ _ taken ts last (Nat.lt_succ_self _) hlast hl
  exact (mirrors_keyword_of_ne (by decide) (by decide)).bind fun _ =>
    (mirrors_identifier _).bind fun _ =>
    (mirrors_keyword_of_ne (by decide) (by decide)).bind fun _ => hdefinitions.bind fun _ =>
    (mirrors_keyword_of_ne (by decide) (by decide)).bind fun _ => mirrors_block.bind fun _ =>
    mirrors_end.bind fun _ => (mirrors_closingName _ _ _).bind fun _ =>
    mirrors_endOfInput.bind fun _ => (mirrors_plain (Rule.still_emit _)).bind fun _ =>
    (mirrors_plain (Rule.still_checked _)).bind fun _ =>
    (mirrors_plain (Rule.still_checked _)).bind fun _ =>
    (mirrors_plain (Rule.still_checked _)).bind fun _ => mirrors_pure _

end Counted

/-! ### From the outside -/

/-- A reading that goes along with one without a cursor is this reading. -/
theorem Record.Mirrors.reading?_eq {ts : Tokens} {x : Record α} {y : Reading Failure α}
    (h : x.Mirrors [] ts d l y) :
    x.reading? = some { y with outcome := y.outcome.mapError (Rule.located ts) } := by
  cases h with
  | took => rfl
  | failed error =>
    subst error
    rfl

theorem Record.Mirrors.proper {ts : Tokens} {x : Record α} {y : Reading Failure α}
    (h : x.Mirrors [] ts d l y) : ∀ m ∈ x.marks, m.Proper ts := by
  cases h with
  | took _ _ _ proper => exact proper
  | failed _ proper => exact proper

/-- From the outside too, neither the counter nor a bound stops a reading, its errors are located
    at the position carried along, and what is recorded is in order. -/
theorem Entry.counted_proper (e : Entry) (ts : Tokens) :
    (e.counted ts).reading? = some (e.read ts) ∧ ∀ m ∈ (e.counted ts).marks, m.Proper ts := by
  have hlast : LastTaken [] ts ts.frontPosition := lastTaken_frontPosition ts
  cases e with
  | statement =>
    have h := Counted.mirrors_statement (Nat.zero_add nestingLimit) [] ts _ hlast rfl
    exact ⟨h.reading?_eq, h.proper⟩
  | block =>
    have hblock := Counted.mirrors_block.bind fun ss => Counted.mirrors_pure (Statement.block ss)
    have h := hblock [] ts _ hlast rfl
    exact ⟨h.reading?_eq, h.proper⟩
  | program =>
    have h := Counted.mirrors_program [] ts _ hlast rfl
    exact ⟨h.reading?_eq, h.proper⟩

/-- **The counter tells what is open.**  Whatever tokens are read, a reading with a counter that
    is put up in front of each branch or loop and down behind it is the reading without: the
    counter is never put down from zero, and a want of tokens is reported at the last token
    taken.  The counter never exceeds its limit.  At each call of the rules of statements and
    blocks it is the number of compound statements that are open, and if the call succeeds it is
    so behind it; the call does as the rule does under all that is left of the limit, whatever
    has been read before.  Tokens are refused as nested too deep exactly behind words that leave
    as many statements open as the limit says, up to a place where a statement may begin, at a
    token that would open one more; this token is left, whatever follows it. -/
theorem counter_tells_openings (e : Entry) (ts : Tokens) :
    (e.counted ts).reading? = some (e.read ts) ∧
    (∀ m ∈ (e.counted ts).marks, m.Proper ts) ∧
    ∀ p rest, (e.Fails ts (.malformed ⟨p, .tooDeep⟩) ∧ e.rest ts = rest) ↔
      ∃ used t more, ts = used ++ t :: more ∧ e.openings (texts used) () ∧
        depthOf (texts used) = .inside nestingLimit ∧ Compound t.text ∧ p = t.position ∧
        rest = t :: more := by
  obtain ⟨hreading, hproper⟩ := e.counted_proper ts
  refine ⟨hreading, hproper, fun p rest => (e.fails_tooDeep_iff ts p rest).trans ⟨?_, ?_⟩⟩
  · rintro ⟨used, t, more, hts, hwords, h⟩
    exact ⟨used, t, more, hts, hwords, Entry.depthOf_openings hwords, h⟩
  · rintro ⟨used, t, more, hts, hwords, -, h⟩
    exact ⟨used, t, more, hts, hwords, h⟩

/-- A call behind a loop in a branch: the counter is one, before and after. -/
theorem counter_tells_openings_behind_loop :
    let ts := tokenize "IF random THEN WHILE true DO a END WHILE b END IF"
    let m : Mark := .call ⟨.statement, 1, ts.drop 9, some (1, ts.drop 10)⟩
    m ∈ (Entry.statement.counted ts).marks ∧ m.Proper ts := by
  intro ts m
  have hmark : m ∈ (Entry.statement.counted ts).marks := by decide +kernel
  exact ⟨hmark, (counter_tells_openings .statement ts).2.1 m hmark⟩

end BlockLanguage
