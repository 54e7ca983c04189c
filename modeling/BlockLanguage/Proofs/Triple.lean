import BlockLanguage.Grammar.Program

namespace BlockLanguage

/-!
# Triples of rules

A reading takes tokens from the front, rule by rule.  A triple of a rule says what it makes
of the tokens that have been taken when it begins: what holds of all tokens taken behind a
success, and what of a failure, of the tokens taken up to it and of those left.

* `Reading.Meets`, `Rule.Triple` — one answer, and all answers of a rule;
* `Rule.Triple.bind`, `Rule.Triple.conseq` — rules behind each other, and consequence;
* `Rule.triple_iterate` — what each step of a repetition keeps, the repetition keeps;
* `Rule.triple_token` and its companions — the steps that read at most one token.
-/

variable {α β : Type} {P P' : Tokens → Prop} {Q Q' : α → Tokens → Prop} {R : β → Tokens → Prop}
  {F F' : Failure → Tokens → Tokens → Prop}

/-- An answer to the tokens `ts`, with `taken` in front of them: behind a success `Q` holds
    of the value and of all tokens taken, and `F` holds of a failure, of the tokens taken
    until then and of those left. -/
inductive Reading.Meets (Q : α → Tokens → Prop) (F : Failure → Tokens → Tokens → Prop)
    (taken ts : Tokens) : Reading Failure α → Prop
  | took {used rest : Tokens} {a : α} {events : List Event} (split : ts = used ++ rest)
      (post : Q a (taken ++ used)) : Meets Q F taken ts ⟨.ok a, rest, events⟩
  | failed {used rest : Tokens} {e : Failure} {events : List Event} (split : ts = used ++ rest)
      (fault : F e (taken ++ used) rest) : Meets Q F taken ts ⟨.error e, rest, events⟩

namespace Reading.Meets

variable {taken ts : Tokens}

/-- A success that takes no token. -/
theorem took_none {a : α} {events : List Event} (post : Q a taken) :
    Meets Q F taken ts ⟨.ok a, ts, events⟩ :=
  .took (List.nil_append ts).symm (by rwa [List.append_nil])

/-- A failure that takes no token. -/
theorem failed_none {e : Failure} {events : List Event} (fault : F e taken ts) :
    Meets Q F taken ts ⟨.error e, ts, events⟩ :=
  .failed (List.nil_append ts).symm (by rwa [List.append_nil])

end Reading.Meets

namespace Rule

/-- Where `P` holds of the tokens taken so far, all answers of `r` meet `Q` and `F`. -/
def Triple (P : Tokens → Prop) (r : Rule α) (Q : α → Tokens → Prop)
    (F : Failure → Tokens → Tokens → Prop) : Prop :=
  ∀ taken ts, P taken → Reading.Meets Q F taken ts (r.read ts)

/-- **One rule behind another.** -/
theorem Triple.bind {r : Rule α} {f : α → Rule β} (hr : Triple P r Q F)
    (hf : ∀ a, Triple (Q a) (f a) R F) : Triple P (r >>= f) R F := by
  intro taken ts hP
  rw [read_bind]
  have hfirst := hr taken ts hP
  generalize r.read ts = first at hfirst ⊢
  cases hfirst with
  | failed split fault => exact .failed split fault
  | @took used rest a _ split post =>
    have hsecond := hf a (taken ++ used) rest post
    simp only
    generalize (f a).read rest = second at hsecond ⊢
    cases hsecond with
    | @took used' _ _ _ split' post' =>
      rw [split', ← List.append_assoc] at split
      rw [List.append_assoc] at post'
      exact .took split post'
    | @failed used' _ _ _ split' fault' =>
      rw [split', ← List.append_assoc] at split
      rw [List.append_assoc] at fault'
      exact .failed split fault'

/-- **Consequence.** -/
theorem Triple.conseq {r : Rule α} (hr : Triple P r Q F) (hP : ∀ taken, P' taken → P taken)
    (hQ : ∀ a taken, Q a taken → Q' a taken)
    (hF : ∀ e taken rest, F e taken rest → F' e taken rest) : Triple P' r Q' F' := by
  intro taken ts hP'
  have h := hr taken ts (hP taken hP')
  generalize r.read ts = answer at h ⊢
  cases h with
  | took split post => exact .took split (hQ _ _ post)
  | failed split fault => exact .failed split (hF _ _ _ fault)

/-! ### Steps that read no token -/

/-- A step that answers `a` without reading. -/
theorem triple_of_read {r : Rule α} {a : α} {events : List Event}
    (h : ∀ ts, r.read ts = ⟨.ok a, ts, events⟩) (hQ : ∀ taken, P taken → Q a taken) :
    Triple P r Q F := by
  intro taken ts hP
  rw [h]
  exact .took_none (hQ taken hP)

theorem triple_pure {a : α} (hQ : ∀ taken, P taken → Q a taken) :
    Triple P (pure a : Rule α) Q F :=
  triple_of_read (fun _ => rfl) hQ

theorem triple_emit (event : Event) : Triple P (emit event) (fun _ => P) F :=
  triple_of_read (fun _ => rfl) fun _ hP => hP

/-- Whatever is seen ahead, the rule that goes on must meet the triple. -/
theorem triple_lookAhead_bind {g : Tokens → β} {f : β → Rule α}
    (hf : ∀ b, Triple P (f b) Q F) : Triple P (lookAhead g >>= f) Q F := by
  intro taken ts hP
  exact hf (g ts) taken ts hP

theorem triple_require {holds : Bool} {position : Position} {cause : Cause}
    (hfail : ∀ taken rest, P taken → holds = false → F (.onToken position cause) taken rest) :
    Triple P (require holds position cause) (fun _ => P) F := by
  intro taken ts hP
  cases holds with
  | true => exact .took_none hP
  | false => exact .failed_none (hfail taken ts hP rfl)

theorem triple_checked {answer : Except Violation α}
    (hok : ∀ a taken, P taken → answer = .ok a → Q a taken)
    (hrefused : ∀ v taken rest, P taken → F (.refused v) taken rest) :
    Triple P (checked answer) Q F := by
  intro taken ts hP
  cases answer with
  | ok a => exact .took_none (hok a taken hP rfl)
  | error v => exact .failed_none (hrefused v taken ts hP)

theorem meets_failAtFront {expected : Expected} {cause : String → Cause} {taken ts : Tokens}
    (hnil : ts = [] → F (.pastLast expected) taken [])
    (hcons : ∀ t more, ts = t :: more → F (.onToken t.position (cause t.text)) taken ts) :
    Reading.Meets Q F taken ts ((failAtFront expected cause : Rule α).read ts) := by
  cases ts with
  | nil => exact .failed_none (hnil rfl)
  | cons t more => exact .failed_none (hcons t more rfl)

/-! ### Steps that read one token -/

theorem triple_token {expected : Expected} {accept : Token → Option α}
    (hnil : ∀ taken, P taken → F (.pastLast expected) taken [])
    (hsome : ∀ taken t a, P taken → accept t = some a → Q a (taken ++ [t]))
    (hnone : ∀ taken t rest, P taken → accept t = none →
      F (.onToken t.position (.unexpected expected t.text)) (taken ++ [t]) rest) :
    Triple P (token expected accept) Q F := by
  rintro taken (_ | ⟨t, ts⟩) hP
  · exact .failed_none (hnil taken hP)
  · have hsplit : t :: ts = [t] ++ ts := rfl
    cases hval : accept t with
    | some a =>
      rw [read_token_some expected hval]
      exact .took hsplit (hsome taken t a hP hval)
    | none =>
      rw [read_token_none expected hval]
      exact .failed hsplit (hnone taken t ts hP hval)

/-! ### Repetition -/

/-- **A repetition** keeps what each of its steps keeps. -/
theorem triple_iterate {σ : Type} {stop : Tokens → Bool} {step : σ → Rule σ}
    {progress : ∀ s, (step s).Progresses} {I : σ → Tokens → Prop}
    (hstep : ∀ s, Triple (I s) (step s) I F) (s : σ) :
    Triple (I s) (iterate stop step progress s) I F := by
  intro taken ts hI
  -- The number of tokens left bounds the repetition.
  induction hn : ts.length using Nat.strongRecOn generalizing s taken ts with
  | ind n ih =>
    cases hstop : stop ts with
    | true =>
      rw [read_iterate_stop hstop]
      exact .took_none hI
    | false =>
      rw [read_iterate_step hstop, read_bind]
      have hprogress := progress s ts
      have hfirst := hstep s taken ts hI
      generalize (step s).read ts = first at hprogress hfirst ⊢
      cases hfirst with
      | failed split fault => exact .failed split fault
      | @took used rest t _ split post =>
        have hsecond := ih rest.length (hn ▸ hprogress t rfl) t (taken ++ used) rest post rfl
        simp only
        generalize (iterate stop step progress t).read rest = second at hsecond ⊢
        cases hsecond with
        | took split' post' =>
          rw [split', ← List.append_assoc] at split
          rw [List.append_assoc] at post'
          exact .took split post'
        | failed split' fault' =>
          rw [split', ← List.append_assoc] at split
          rw [List.append_assoc] at fault'
          exact .failed split fault'

end Rule

end BlockLanguage
