import BlockLanguage.Error
import BlockLanguage.Event

namespace BlockLanguage

/-!
# Rules of the grammar

A rule reads tokens from the front of a list.  It answers a value or a failure,
and in both cases the tokens it left and the events on the way.

* `Reading` — the answer of a rule, `Rule` — the rules, which form a monad;
* `Rule.lookAhead`, `failAt`, `require`, `emit`, `checked` — steps that read no token;
* `Rule.next`, `keyword`, `identifier`, `condition`, `endOfInput` — steps that
  read one token, and fail behind a wrong one;
* `Rule.Keeps`, `Rule.Progresses` — what is left is an end of what was given, and
  a success reads something;
* `Rule.iterate` — a step that progresses, repeated up to a stop;
* `Rule.run` — a rule as an operation of its own, with located errors.
-/

/-- What stops a rule: a token with its position, the end of the list, or a
    check that the value read does not pass. -/
inductive Failure
  | onToken (position : Position) (cause : Cause)
  | pastLast (expected : Expected)
  | refused (violation : Violation)
  deriving DecidableEq, Repr

/-- The answer of a reading: a value or what stopped it, the tokens left, and
    the events in the order in which they happened. -/
structure Reading (ε α : Type) where
  outcome : Except ε α
  rest : Tokens
  events : List Event

/-- A rule of the grammar, given by how it reads. -/
structure Rule (α : Type) where
  read : Tokens → Reading Failure α

namespace Rule

variable {α β σ : Type}

/-- Reads nothing and answers `a`. -/
def succeed (a : α) : Rule α := ⟨fun ts => ⟨.ok a, ts, []⟩⟩

/-- Reads by `r`, then by the rule that `r`'s value selects; a failure of `r`
    stops there. -/
def andThen (r : Rule α) (f : α → Rule β) : Rule β := ⟨fun ts =>
  match r.read ts with
  | ⟨.error e, rest, events⟩ => ⟨.error e, rest, events⟩
  | ⟨.ok a, rest, events⟩ =>
    let reading := (f a).read rest
    { reading with events := events ++ reading.events }⟩

instance : Monad Rule where
  pure := succeed
  bind := andThen

/-! ### Steps that read no token -/

/-- What `f` says of the tokens to come. -/
def lookAhead (f : Tokens → α) : Rule α := ⟨fun ts => ⟨.ok (f ts), ts, []⟩⟩

/-- Fails at a position. -/
def failAt (position : Position) (cause : Cause) : Rule α := ⟨fun ts =>
  ⟨.error (.onToken position cause), ts, []⟩⟩

/-- Fails at a position unless `holds`. -/
def require (holds : Bool) (position : Position) (cause : Cause) : Rule Unit :=
  if holds then pure () else failAt position cause

/-- Fails at the next token, with the cause that its text gives, or for want of
    a token. -/
def failAtFront (expected : Expected) (cause : String → Cause) : Rule α := ⟨fun ts =>
  match ts with
  | [] => ⟨.error (.pastLast expected), ts, []⟩
  | t :: _ => ⟨.error (.onToken t.position (cause t.text)), ts, []⟩⟩

/-- Tells that something is complete. -/
def emit (event : Event) : Rule Unit := ⟨fun ts => ⟨.ok (), ts, [event]⟩⟩

/-- Takes over the answer of a checked operation. -/
def checked (answer : Except Violation α) : Rule α := ⟨fun ts =>
  ⟨answer.mapError .refused, ts, []⟩⟩

/-! ### Steps that read one token -/

/-- Takes the next token. -/
def next (expected : Expected) : Rule Token := ⟨fun ts =>
  match ts with
  | [] => ⟨.error (.pastLast expected), [], []⟩
  | t :: rest => ⟨.ok t, rest, []⟩⟩

/-- The value of the token `t`, or the report that it has none. -/
def valueOf (expected : Expected) (accept : Token → Option α) (t : Token) : Rule α :=
  match accept t with
  | some a => pure a
  | none => failAt t.position (.unexpected expected t.text)

/-- Takes the next token and asks `accept` for its value. -/
def token (expected : Expected) (accept : Token → Option α) : Rule α := do
  valueOf expected accept (← next expected)

/-- Takes a reserved word. -/
def keyword (k : Keyword) : Rule Unit :=
  token (.keyword k) fun t => if t.text = k.text then some () else none

/-- Takes a name; answers its token. -/
def identifier (role : Role) : Rule Token :=
  token (.name role) fun t => if isIdentifier t.text then some t else none

/-- The condition that the token `t` writes. -/
def conditionOf (t : Token) : Rule Condition :=
  match Condition.ofText t.text with
  | .ok c => pure c
  | .error _ => failAt t.position (.unknownCondition t.text)

/-- Takes a word that stands for a condition; answers the condition. -/
def condition (after : Keyword) : Rule Condition := do
  conditionOf (← token (.condition after) fun t => if isCondition t.text then some t else none)

/-- Fails at the given token, if there is one. -/
def nothing : Option Token → Rule Unit
  | none => pure ()
  | some t => failAt t.position (.afterEnd t.text)

/-- Takes the end mark, behind which no token may stand. -/
def endOfInput : Rule Unit := do
  token .endOfInput fun t => if t.isEnd then some () else none
  nothing (← lookAhead Tokens.front?)

/-! ### Answers of the steps -/

@[simp] theorem read_pure (a : α) (ts : Tokens) : (pure a : Rule α).read ts = ⟨.ok a, ts, []⟩ := rfl

/-- One rule behind another, on given tokens. -/
theorem read_bind (r : Rule α) (f : α → Rule β) (ts : Tokens) :
    (r >>= f).read ts =
      match r.read ts with
      | ⟨.error e, rest, events⟩ => ⟨.error e, rest, events⟩
      | ⟨.ok a, rest, events⟩ =>
        ⟨((f a).read rest).outcome, ((f a).read rest).rest, events ++ ((f a).read rest).events⟩ :=
  rfl

/-- Reading a token fails where none is left. -/
@[simp] theorem read_token_nil (expected : Expected) (accept : Token → Option α) :
    (token expected accept).read [] = ⟨.error (.pastLast expected), [], []⟩ := rfl

/-- A token with a value is taken. -/
theorem read_token_some (expected : Expected) {accept : Token → Option α} {t : Token} {a : α}
    (h : accept t = some a) (ts : Tokens) :
    (token expected accept).read (t :: ts) = ⟨.ok a, ts, []⟩ := by
  simp [token, read_bind, next, valueOf, h]

/-- A token without a value is taken too, and reported. -/
theorem read_token_none (expected : Expected) {accept : Token → Option α} {t : Token}
    (h : accept t = none) (ts : Tokens) :
    (token expected accept).read (t :: ts) =
      ⟨.error (.onToken t.position (.unexpected expected t.text)), ts, []⟩ := by
  simp [token, read_bind, next, valueOf, h, failAt]

/-- Rules that read alike are the same. -/
theorem ext_read {r r' : Rule α} (h : ∀ ts, r.read ts = r'.read ts) : r = r' := by
  cases r
  cases r'
  exact congrArg mk (funext h)

/-- A word that stands for a condition always writes one, so the condition is the token's
    value. -/
theorem condition_eq (after : Keyword) :
    condition after = token (.condition after) fun t => Condition.ofText? t.text := by
  apply ext_read
  rintro (_ | ⟨t, ts⟩)
  · rfl
  · rw [condition, read_bind]
    cases hc : Condition.ofText? t.text with
    | none =>
      have hword : isCondition t.text = false := by
        rw [← Bool.not_eq_true, isCondition_iff]
        rintro ⟨c, h⟩
        rw [Condition.ofText?_eq_some_iff.2 h] at hc
        cases hc
      rw [read_token_none _ (if_neg (by simp [hword])), read_token_none _ hc]
    | some c =>
      have hword : isCondition t.text = true :=
        isCondition_iff.2 ⟨c, Condition.ofText?_eq_some_iff.1 hc⟩
      rw [read_token_some _ (if_pos hword), read_token_some _ hc]
      simp [conditionOf, Condition.ofText, hc]

/-! ### What a rule leaves -/

/-- What `r` leaves is an end of what it was given. -/
def Keeps (r : Rule α) : Prop := ∀ ts, (r.read ts).rest <:+ ts

/-- A success of `r` reads at least one token. -/
def Progresses (r : Rule α) : Prop :=
  ∀ ts a, (r.read ts).outcome = .ok a → (r.read ts).rest.length < ts.length

theorem Keeps.bind {r : Rule α} {f : α → Rule β} (hr : r.Keeps) (hf : ∀ a, (f a).Keeps) :
    (r >>= f).Keeps := by
  intro ts
  have h := hr ts
  rw [read_bind]
  match r.read ts, h with
  | ⟨.error _, _, _⟩, h => exact h
  | ⟨.ok a, rest, _⟩, h => exact (hf a rest).trans h

theorem Progresses.bind {r : Rule α} {f : α → Rule β} (hr : r.Progresses)
    (hf : ∀ a, (f a).Keeps) : (r >>= f).Progresses := by
  intro ts b
  have h := hr ts
  rw [read_bind]
  match r.read ts, h with
  | ⟨.error _, _, _⟩, _ => nofun
  | ⟨.ok a, rest, _⟩, h => exact fun _ => Nat.lt_of_le_of_lt (hf a rest).length_le (h a rfl)

theorem keeps_pure (a : α) : (pure a : Rule α).Keeps := fun _ => List.suffix_rfl

theorem keeps_lookAhead (f : Tokens → α) : (lookAhead f).Keeps := fun _ => List.suffix_rfl

theorem keeps_failAt (position : Position) (cause : Cause) :
    (failAt position cause : Rule α).Keeps := fun _ => List.suffix_rfl

theorem keeps_require (holds : Bool) (position : Position) (cause : Cause) :
    (require holds position cause).Keeps := by
  cases holds
  · exact keeps_failAt position cause
  · exact keeps_pure ()

theorem keeps_failAtFront (expected : Expected) (cause : String → Cause) :
    (failAtFront expected cause : Rule α).Keeps := by
  rintro (_ | ⟨t, ts⟩) <;> exact List.suffix_rfl

/-- A rule that always fails progresses whenever it succeeds. -/
theorem progresses_failAtFront (expected : Expected) (cause : String → Cause) :
    (failAtFront expected cause : Rule α).Progresses := by
  rintro (_ | ⟨t, ts⟩) a h <;> simp [failAtFront] at h

theorem keeps_emit (event : Event) : (emit event).Keeps := fun _ => List.suffix_rfl

theorem keeps_checked (answer : Except Violation α) : (checked answer).Keeps :=
  fun _ => List.suffix_rfl

theorem keeps_next (expected : Expected) : (next expected).Keeps := by
  rintro (_ | ⟨t, ts⟩)
  · exact List.suffix_rfl
  · exact List.suffix_cons t ts

theorem progresses_next (expected : Expected) : (next expected).Progresses := by
  rintro (_ | ⟨t, ts⟩) a h
  · simp [next] at h
  · simp [next]

theorem keeps_valueOf (expected : Expected) (accept : Token → Option α) (t : Token) :
    (valueOf expected accept t).Keeps := by
  unfold valueOf
  cases accept t
  · exact keeps_failAt _ _
  · exact keeps_pure _

theorem keeps_token (expected : Expected) (accept : Token → Option α) :
    (token expected accept).Keeps :=
  (keeps_next expected).bind fun _ => keeps_valueOf _ _ _

theorem progresses_token (expected : Expected) (accept : Token → Option α) :
    (token expected accept).Progresses :=
  (progresses_next expected).bind fun _ => keeps_valueOf _ _ _

theorem keeps_condition (after : Keyword) : (condition after).Keeps :=
  condition_eq after ▸ keeps_token _ _

theorem keeps_nothing (t : Option Token) : (nothing t).Keeps := by
  cases t
  · exact keeps_pure ()
  · exact keeps_failAt _ _

theorem keeps_endOfInput : endOfInput.Keeps :=
  (keeps_token _ _).bind fun _ => (keeps_lookAhead _).bind fun _ => keeps_nothing _

/-! ### Repetition -/

/-- How `iterate` reads. -/
def iterateFrom (stop : Tokens → Bool) (step : σ → Rule σ) (progress : ∀ s, (step s).Progresses)
    (s : σ) (ts : Tokens) : Reading Failure σ :=
  if stop ts then ⟨.ok s, ts, []⟩
  else
    match _h : (step s).read ts with
    | ⟨.error e, rest, events⟩ => ⟨.error e, rest, events⟩
    | ⟨.ok s', rest, events⟩ =>
      let reading := iterateFrom stop step progress s' rest
      { reading with events := events ++ reading.events }
  termination_by ts.length
  decreasing_by
    have := progress s ts s'
    rw [_h] at this
    exact this rfl

/-- Repeats `step` from `s` on until the tokens to come pass `stop`. -/
def iterate (stop : Tokens → Bool) (step : σ → Rule σ) (progress : ∀ s, (step s).Progresses)
    (s : σ) : Rule σ := ⟨iterateFrom stop step progress s⟩

variable {stop : Tokens → Bool} {step : σ → Rule σ} {progress : ∀ s, (step s).Progresses}

/-- A repetition is over where its stop holds. -/
theorem read_iterate_stop {s : σ} {ts : Tokens} (h : stop ts = true) :
    (iterate stop step progress s).read ts = ⟨.ok s, ts, []⟩ := by
  simp only [iterate]
  rw [iterateFrom, if_pos h]

/-- Elsewhere it is a step and the repetition behind it. -/
theorem read_iterate_step {s : σ} {ts : Tokens} (h : stop ts = false) :
    (iterate stop step progress s).read ts =
      (step s >>= iterate stop step progress).read ts := by
  simp only [iterate, read_bind]
  rw [iterateFrom, if_neg (by simp [h])]
  split <;> simp_all

theorem keeps_iterate (hstep : ∀ s, (step s).Keeps) (s : σ) :
    (iterate stop step progress s).Keeps := by
  intro ts
  simp only [iterate]
  fun_induction iterateFrom stop step progress s ts with
  | case1 => exact List.suffix_rfl
  | case2 s ts _ e rest events h => exact h ▸ hstep s ts
  | case3 s ts _ s' rest events h reading ih =>
    have hs := hstep s ts
    rw [h] at hs
    exact ih.trans hs

/-! ### Running a rule -/

/-- The position at which the want of a token is reported: that of the last
    token, or the start of a text where there is none. -/
def lastPosition (ts : Tokens) : Position := (ts.getLast?.map Token.position).getD Position.start

/-- The error that a failure on the tokens `ts` is.  A reader that carries the position of the
    last token taken along makes the same error of it, see `LastTaken.located_eq`. -/
def located (ts : Tokens) : Failure → Error
  | .onToken position cause => .malformed ⟨position, cause⟩
  | .pastLast expected => .malformed ⟨lastPosition ts, .exhausted expected⟩
  | .refused v => .violation v

/-- Reads the tokens `ts` by the rule `r`. -/
def run (r : Rule α) (ts : Tokens) : Reading Error α :=
  let reading := r.read ts
  { reading with outcome := reading.outcome.mapError (located ts) }

end Rule

end BlockLanguage
