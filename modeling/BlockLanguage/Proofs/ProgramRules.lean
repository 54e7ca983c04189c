import BlockLanguage.Grammar.Program
import BlockLanguage.Proofs.Draft
import BlockLanguage.Proofs.StatementRules

namespace BlockLanguage

/-!
# The rules of programs follow the words of drafts

A definition with a name that is taken is read to its end before it is refused at
its name.  So the rule of definitions follows the words of drafts in order, and
its failures can be completed as long as no name is defined twice.

* `Rule.follows_identifier_require` — a name that must pass a check;
* `Rule.follows_definition`, `Rule.follows_defined` — one definition by itself, and
  one behind others;
* `Proviso.fresh` — the words so far define new names only, each once;
* `Rule.follows_definitionsFrom` — definitions up to the body of a program;
* `Rule.follows_program` — whole programs.
-/

variable {V α : Type} {C : Proviso}

namespace Rule

/-! ### Names that must pass a check -/

/-- A check that is passed goes on. -/
theorem require_bind_of_true {holds : Bool} (h : holds = true) (position : Position)
    (cause : Cause) (f : Unit → Rule α) : (require holds position cause >>= f) = f () := by
  rw [h]
  rfl

/-- A check that is not passed stops there. -/
theorem read_require_bind_of_false {holds : Bool} (h : holds = false) (position : Position)
    (cause : Cause) (f : Unit → Rule α) (ts : Tokens) :
    (require holds position cause >>= f).read ts = ⟨.error (.onToken position cause), ts, []⟩ := by
  rw [h]
  rfl

/-- Nothing need follow a check. -/
theorem require_bind_pure (holds : Bool) (position : Position) (cause : Cause) :
    (require holds position cause >>= fun _ => pure ()) = require holds position cause := by
  cases holds
  · rfl
  · rfl

theorem read_identifier {role : Role} {t : Token} (h : isIdentifier t.text = true) (ts : Tokens) :
    (identifier role).read (t :: ts) = ⟨.ok t, ts, []⟩ :=
  read_token_some _ (if_pos h) ts

/-- **A name that must pass a check.**  A name that does not pass it is refused
    at the name itself. -/
theorem follows_identifier_require (role : Role) (accepted : String → Bool)
    (cause : String → Cause) {f : Token → Rule α} {G : String → Sentences V} {H : α → Sentences V}
    (hcause : ∀ n, isIdentifier n = true → (cause n).Blames n)
    (hf : ∀ t, isIdentifier t.text = true → accepted t.text = true →
      (f t).Follows C (G t.text) H)
    (hG : ∀ n, isIdentifier n = true → accepted n = true → (G n).Possible) :
    (do
      let t ← identifier role
      require (accepted t.text) t.position (cause t.text)
      f t : Rule α).Follows C
      (Sentences.name fun n => .given (accepted n = true) (G n)) H := by
  intro ts hpossible
  cases ts with
  | nil =>
    refine .ended (fun _ => hpossible) ?_
    intro v h
    obtain ⟨n, k, h, -⟩ := h
    cases h
  | cons t more =>
    have hsplit : t :: more = [] ++ t :: more := rfl
    by_cases hname : isIdentifier t.text = true
    · rw [read_bind, read_identifier hname]
      by_cases haccepted : accepted t.text = true
      · simp only [require_bind_of_true haccepted]
        have hbehind := hf t hname haccepted more (hG _ hname haccepted)
        refine (hbehind.prepend (List.singleton_append).symm ?_ ?_ fun _ => C.of_append).withEvents _
        · intro w v h
          exact ⟨_, w, rfl, hname, haccepted, h⟩
        · intro w v _ h
          obtain ⟨n, k, hk, -, -, h⟩ := h
          obtain ⟨rfl, rfl⟩ := List.cons.inj hk
          exact h
      · rw [Bool.not_eq_true] at haccepted
        simp only [read_require_bind_of_false haccepted]
        refine .stopped hsplit (hcause t.text hname) (fun _ => hpossible) ?_
        intro w v h
        obtain ⟨n, k, hk, -, hn, -⟩ := h
        rw [← (List.cons.inj hk).1, haccepted] at hn
        cases hn
    · have hread : (identifier role).read (t :: more) =
          ⟨.error (.onToken t.position (.unexpected (.name role) t.text)), more, []⟩ :=
        read_token_none _ (if_neg hname) more
      rw [read_bind, hread]
      refine .stopped hsplit (Cause.blames_unexpected _ _) (fun _ => hpossible) ?_
      intro w v h
      obtain ⟨n, k, hk, hn, -⟩ := h
      exact hname ((List.cons.inj hk).1 ▸ hn)

/-- The name at the end of a section is the one at its beginning. -/
theorem follows_closingName (of : Section) (role : Role) {opening : Token} {G : Sentences V}
    (hopening : isIdentifier opening.text = true) (hG : G.Possible) :
    (closingName of role opening).Follows C (Sentences.word opening.text G) fun _ => G := by
  have hrule : closingName of role opening = (do
      let t ← identifier role
      require (decide (t.text = opening.text)) t.position (.nameMismatch of opening.text t.text)
      pure ()) := by
    unfold closingName
    simp only [require_bind_pure]
  rw [hrule]
  intro ts hpossible
  -- The one name that passes the check is the word itself.
  have hname : ∀ w v, Sentences.word opening.text G w v ↔
      (Sentences.name fun n => .given (decide (n = opening.text) = true) G) w v := by
    intro w v
    constructor
    · intro h
      obtain ⟨k, rfl, h⟩ := h
      exact ⟨_, k, rfl, hopening, by simp, h⟩
    · intro h
      obtain ⟨n, k, rfl, -, hn, h⟩ := h
      obtain rfl := of_decide_eq_true hn
      exact ⟨k, rfl, h⟩
  have hread := follows_identifier_require (C := C) (G := fun _ => G) (H := fun _ => G) role
    (fun n => decide (n = opening.text)) (.nameMismatch of opening.text)
    (fun _ hn => Cause.blames_nameMismatch _ _ hn)
    (fun _ _ _ => follows_pure (H := fun _ => G) ()) fun _ _ _ => hG
  obtain ⟨w, v, h⟩ := hpossible
  exact (hread ts ⟨w, v, (hname w v).1 h⟩).widen (fun w v => (hname w v).2)
    fun w v _ => (hname w v).1

/-! ### One definition -/

/-- A definition by itself, and a sentence behind it that may depend on it. -/
def definitionSentences (G : Definition → Sentences V) : Sentences V :=
  .word Keyword.instruction.text <| .name fun n => .given ((!isPrimitive n) = true) <|
    .word Keyword.is.text <| .statements nestingLimit fun body =>
      .word Keyword.end_.text <| .word n <| G ⟨n, body⟩

theorem definitionSentences_iff {G : Definition → Sentences V} {w : List String} {v : V} :
    definitionSentences G w v ↔ ∃ d k, w = d.words ++ k ∧ d.WellFormed ∧ G d k v := by
  constructor
  · intro h
    obtain ⟨_, rfl, n, _, rfl, hn, hown, _, rfl, body, _, rfl, hb, _, rfl, k, rfl, h⟩ := h
    exact ⟨⟨n, body⟩, k, by simp [Definition.words], ⟨hn, by simpa using hown, hb⟩, h⟩
  · intro h
    obtain ⟨⟨n, body⟩, k, rfl, ⟨hn, hown, hb⟩, h⟩ := h
    exact ⟨_, by simp [Definition.words], n, _, rfl, hn, by simpa using hown, _, rfl, body, _, rfl,
      hb, _, rfl, k, rfl, h⟩

/-- **A definition by itself** is read in front of what follows it. -/
theorem follows_definition {G : Definition → Sentences V}
    (hG : ∀ d : Definition, d.WellFormed → (G d).Possible) :
    definition.Follows C (definitionSentences G) fun r =>
      .given (Definition.WellFormed ⟨r.1.text, r.2⟩) (G ⟨r.1.text, r.2⟩) := by
  have hbody : ∀ n, isIdentifier n = true → (!isPrimitive n) = true → ∀ body,
      Statement.AllReadable nestingLimit body → (G ⟨n, body⟩).Possible :=
    fun n hn hown body hb => hG _ ⟨hn, by simpa using hown, hb⟩
  have hhead : ∀ n, isIdentifier n = true → (!isPrimitive n) = true →
      (Sentences.statements nestingLimit fun body => .word Keyword.end_.text <| .word n <|
        G ⟨n, body⟩).Possible := by
    intro n hn hown
    apply Sentences.possible_statements
    simpa using hbody n hn hown [] Statement.allReadable_nil
  refine (follows_keyword .instruction ?_).bind fun _ => follows_identifier_require _
    (fun n => !isPrimitive n) .redefinesPrimitive ?_ ?_ ?_
  · obtain ⟨n, hn, hown, -⟩ := Context.empty.exists_free_name
    have hown : (!isPrimitive n) = true := by simp [hown]
    exact Sentences.possible_name hn
      (Sentences.possible_given hown (Sentences.possible_word.2 (hhead n hn hown)))
  · exact fun n hn => Cause.blames_redefinesPrimitive hn
  · intro t hn hown
    refine (follows_keyword .is (hhead _ hn hown)).bind fun _ =>
      (readsBlocks_block nestingLimit _ ?_ ?_).bind fun body => Follows.given fun hb =>
      (follows_keyword .end_ ?_).bind fun _ =>
      (follows_closingName _ _ hn (hbody _ hn hown body hb)).bind fun _ =>
      (follows_checked (H := fun _ => G ⟨t.text, body⟩) rfl).bind fun _ =>
      (follows_emit _).bind fun _ => ?_
    · intro body hb
      simpa using hbody _ hn hown body hb
    · exact fun body => Sentences.endsBlock_word (.inl rfl)
    · exact Sentences.possible_word.2 (hbody _ hn hown body hb)
    · have hd : Definition.WellFormed ⟨t.text, body⟩ := ⟨hn, by simpa using hown, hb⟩
      intro ts hpossible
      refine (follows_pure (t, body) ts (Sentences.possible_given hd hpossible)).widen ?_ ?_
      · exact fun _ _ h => h.2
      · exact fun _ _ _ h => ⟨hd, h⟩
  · exact fun n hn hown => Sentences.possible_word.2 (hhead n hn hown)

/-! ### What a definition has read -/

/-- Both rules behind each other have succeeded. -/
theorem ok_of_bind {β : Type} {r : Rule α} {f : α → Rule β} {ts rest : Tokens} {b : β}
    {events : List Event} (h : (r >>= f).read ts = ⟨.ok b, rest, events⟩) :
    ∃ a mid e e', r.read ts = ⟨.ok a, mid, e⟩ ∧ (f a).read mid = ⟨.ok b, rest, e'⟩ := by
  rw [read_bind] at h
  match hr : r.read ts with
  | ⟨.error _, _, _⟩ =>
    rw [hr] at h
    cases h
  | ⟨.ok a, mid, e⟩ =>
    rw [hr] at h
    obtain ⟨hout, hrest, -⟩ := Reading.mk.inj h
    exact ⟨a, mid, e, _, rfl, by rw [← hout, ← hrest]⟩

/-- A token has been taken, and it has the value. -/
theorem ok_of_token {expected : Expected} {accept : Token → Option α} {ts rest : Tokens} {a : α}
    {events : List Event} (h : (token expected accept).read ts = ⟨.ok a, rest, events⟩) :
    ∃ t, ts = t :: rest ∧ accept t = some a := by
  cases ts with
  | nil => cases h
  | cons t ts =>
    cases hval : accept t with
    | none =>
      rw [read_token_none expected hval] at h
      cases h
    | some b =>
      rw [read_token_some expected hval] at h
      cases h
      exact ⟨t, rfl, hval⟩

theorem rest_suffix_of_ok {r : Rule α} {ts rest : Tokens} {a : α} {events : List Event}
    (hr : r.Keeps) (h : r.read ts = ⟨.ok a, rest, events⟩) : rest <:+ ts := by
  have hkeeps := hr ts
  rwa [h] at hkeeps

/-- A definition begins with `INSTRUCTION` and the token of its name, and what is
    left lies behind both. -/
theorem ok_of_definition {ts rest : Tokens} {name : Token} {body : List Statement}
    {events : List Event} (h : definition.read ts = ⟨.ok (name, body), rest, events⟩) :
    ∃ t more, ts = t :: name :: more ∧ t.text = Keyword.instruction.text ∧ rest <:+ more := by
  obtain ⟨_, ts₁, _, _, hkeyword, h₁⟩ := ok_of_bind h
  obtain ⟨n, ts₂, _, _, hname, h₂⟩ := ok_of_bind h₁
  obtain ⟨t, rfl, ht⟩ := ok_of_token hkeyword
  obtain ⟨n', rfl, hn⟩ := ok_of_token hname
  have hbehind : rest <:+ ts₂ := by
    refine rest_suffix_of_ok ?_ h₂
    exact (keeps_require _ _ _).bind fun _ => (keeps_token _ _).bind fun _ =>
      (keeps_block _).bind fun _ => (keeps_token _ _).bind fun _ =>
      (keeps_closingName _ _ _).bind fun _ => (keeps_checked _).bind fun _ =>
      (keeps_emit _).bind fun _ => keeps_pure _
  obtain ⟨_, _, _, _, -, h₃⟩ := ok_of_bind h₂
  obtain ⟨_, _, _, _, -, h₄⟩ := ok_of_bind h₃
  obtain ⟨_, _, _, _, -, h₅⟩ := ok_of_bind h₄
  obtain ⟨_, _, _, _, -, h₆⟩ := ok_of_bind h₅
  obtain ⟨_, _, _, _, -, h₇⟩ := ok_of_bind h₆
  obtain ⟨_, _, _, _, -, h₈⟩ := ok_of_bind h₇
  obtain ⟨_, _, _, _, -, h₉⟩ := ok_of_bind h₈
  cases h₉
  split at ht
  · next htext =>
    split at hn
    · cases hn
      exact ⟨t, ts₂, rfl, htext, hbehind⟩
    · cases hn
  · cases ht

end Rule

/-! ### Definitions behind others -/

/-- The words define no name twice, and none that `c` defines. -/
def Proviso.fresh (c : Context) : Proviso where
  holds u := (definedNames u).Nodup ∧ ∀ n ∈ definedNames u, c.contains n = false
  of_append := by
    intro u w h
    obtain ⟨hnodup, hfree⟩ := h
    have hsub := definedNames_sublist_append u w
    exact ⟨hnodup.sublist hsub, fun n hn => hfree n (hsub.mem hn)⟩

namespace Sentences

/-- Definitions that `c` admits, and a sentence behind them that may depend on
    the context with them. -/
def definitionsFrom (c : Context) (G : Context → Sentences V) : Sentences V := fun w v =>
  ∃ ds k, w = ds.flatMap Definition.words ++ k ∧ c.Admits ds ∧ G (c.extend ds) k v

variable {c : Context} {G : Context → Sentences V} {w : List String} {v : V}

/-- Without definitions there is what stands behind them. -/
theorem definitionsFrom_of_behind (h : G c w v) : definitionsFrom c G w v :=
  ⟨[], w, rfl, trivial, h⟩

/-- One more definition in front. -/
theorem definitionsFrom_cons {d : Definition} (hd : d.WellFormed)
    (hfree : c.contains d.name = false)
    (h : definitionsFrom (c.define d) G w v) :
    definitionsFrom c G (d.words ++ w) v := by
  obtain ⟨ds, k, rfl, hds, hk⟩ := h
  exact ⟨d :: ds, k, by simp, ⟨hd, hfree, hds⟩, hk⟩

/-- There is no definition, or a first one. -/
theorem definitionsFrom_cases (h : definitionsFrom c G w v) :
    G c w v ∨ ∃ (d : Definition) (k : List String), w = d.words ++ k ∧ d.WellFormed ∧
      c.contains d.name = false ∧ definitionsFrom (c.define d) G k v := by
  obtain ⟨ds, k, rfl, hds, hk⟩ := h
  cases ds with
  | nil => exact .inl hk
  | cons d ds =>
    obtain ⟨hd, hfree, hds⟩ := hds
    exact .inr ⟨d, _, by simp, hd, hfree, ds, k, rfl, hds, hk⟩

/-- A definition with a new name, which is followed by definitions that are
    admitted with it. -/
theorem definitionsFrom_of_new_name {n : String} (hnew : c.contains n = false)
    (h : Rule.definitionSentences (fun d => definitionsFrom (c.define d) G)
      (Keyword.instruction.text :: n :: w) v) :
    definitionsFrom c G (Keyword.instruction.text :: n :: w) v := by
  obtain ⟨d, k, hk, hd, hbehind⟩ := Rule.definitionSentences_iff.1 h
  obtain rfl : n = d.name := by
    simp only [Definition.words, List.cons_append, List.nil_append, List.cons.injEq] at hk
    exact hk.2.1
  rw [hk]
  exact definitionsFrom_cons hd hnew hbehind

/-- Words that may define a name which is taken can go on; so they can go on in
    order if they define new names only. -/
theorem definitionsFrom_viable {u : List String} (hpossible : (G c).Possible)
    (hfree : ∀ d : Definition, d.WellFormed →
      (definitionsFrom (c.define d) G).Possible)
    (hu : ∀ x ∈ u.head?, x = Keyword.instruction.text) (hfresh : (Proviso.fresh c).holds u)
    (h : ∃ w v, Rule.definitionSentences
      (fun d => definitionsFrom (c.define d) G) (u ++ w) v) :
    ∃ w v, definitionsFrom c G (u ++ w) v := by
  match u with
  | [] =>
    obtain ⟨w, v, h⟩ := hpossible
    exact ⟨w, v, definitionsFrom_of_behind h⟩
  | [x] =>
    -- Only `INSTRUCTION` has been read, so a free name can follow.
    obtain rfl := hu x rfl
    obtain ⟨n, hn, hown, hnew⟩ := c.exists_free_name
    have hd : Definition.WellFormed ⟨n, []⟩ := ⟨hn, hown, Statement.allReadable_nil⟩
    obtain ⟨k, v, hk⟩ := hfree _ hd
    exact ⟨_, v, definitionsFrom_cons hd hnew hk⟩
  | x :: n :: u =>
    -- The name has been read, and it is new.
    obtain rfl := hu x rfl
    obtain ⟨w, v, h⟩ := h
    exact ⟨w, v, definitionsFrom_of_new_name (hfresh.2 n (by simp [definedNames])) h⟩

end Sentences

namespace Rule

variable {c : Context} {G : Context → Sentences V} {ts : Tokens}

/-- The sets behind a context can be reached, and each of their sentences begins
    with the body of a program. -/
structure BeforeBody (G : Context → Sentences V) : Prop where
  possible : ∀ c : Context, c.Allowed → (G c).Possible
  begins : ∀ c w v, G c w v → w.head? = some Keyword.begin.text

namespace BeforeBody

theorem possible_definitionsFrom (hG : BeforeBody G) (hc : c.Allowed) :
    (Sentences.definitionsFrom c G).Possible := by
  obtain ⟨w, v, h⟩ := hG.possible c hc
  exact ⟨w, v, Sentences.definitionsFrom_of_behind h⟩

theorem possible_define (hG : BeforeBody G) (hc : c.Allowed) (d : Definition)
    (hd : d.WellFormed) : (Sentences.definitionsFrom (c.define d) G).Possible :=
  hG.possible_definitionsFrom (hc.insert hd.allowed)

/-- A definition can always be added, as some name is free. -/
theorem possible_definitionSentences (hG : BeforeBody G) (hc : c.Allowed) :
    (definitionSentences fun d => Sentences.definitionsFrom (c.define d) G).Possible := by
  obtain ⟨n, hn, hown, -⟩ := c.exists_free_name
  have hd : Definition.WellFormed ⟨n, []⟩ := ⟨hn, hown, Statement.allReadable_nil⟩
  obtain ⟨w, v, h⟩ := hG.possible_define hc _ hd
  exact ⟨_, v, definitionSentences_iff.2 ⟨_, w, rfl, hd, h⟩⟩

/-- Where the body does not begin, a definition does. -/
theorem definitionSentences_of_front (hG : BeforeBody G) {w : List String} {v : V}
    (hw : w.head? ≠ some Keyword.begin.text) (h : Sentences.definitionsFrom c G w v) :
    definitionSentences (fun d => Sentences.definitionsFrom (c.define d) G) w v := by
  rcases Sentences.definitionsFrom_cases h with h | ⟨d, k, rfl, hd, -, h⟩
  · exact absurd (hG.begins c w v h) hw
  · exact definitionSentences_iff.2 ⟨d, k, rfl, hd, h⟩

/-- No sentence defines a name that is taken. -/
theorem not_definitionsFrom_of_taken (hG : BeforeBody G) {n : String}
    (hn : c.contains n = true) (w : List String) (v : V) :
    ¬ Sentences.definitionsFrom c G (Keyword.instruction.text :: n :: w) v := by
  intro h
  rcases Sentences.definitionsFrom_cases h with h | ⟨d, k, hk, -, hfree, -⟩
  · have hword : Keyword.instruction.text = Keyword.begin.text :=
      Option.some.inj (hG.begins c _ v h)
    exact absurd hword (by decide)
  · have htail := (List.cons.inj hk).2
    have hname : n = d.name := (List.cons.inj htail).1
    rw [← hname, hn] at hfree
    cases hfree

/-- Words that begin a definition, perhaps of a name that is taken, could go on with
    a new name if they define new names only. -/
theorem viable (hG : BeforeBody G) (hc : c.Allowed) {used others : Tokens}
    (hstart : (texts (used ++ others)).head? = some Keyword.instruction.text)
    (hfresh : (Proviso.fresh c).holds (texts used))
    (h : ∃ w v, definitionSentences (fun d => Sentences.definitionsFrom (c.define d) G)
      (texts used ++ w) v) :
    ∃ w v, Sentences.definitionsFrom c G (texts used ++ w) v := by
  refine Sentences.definitionsFrom_viable (hG.possible c hc) (hG.possible_define hc) ?_ hfresh h
  intro x hx
  rw [texts_append, List.head?_append, hx] at hstart
  exact Option.some.inj hstart

end BeforeBody

/-- **A definition behind others.**  It is read to its end; then it is refused at
    its name if this is taken. -/
theorem follows_defined (hG : BeforeBody G) (hc : c.Allowed)
    (hstart : (texts ts).head? = some Keyword.instruction.text) :
    BlockLanguage.Follows (Proviso.fresh c) (Sentences.definitionsFrom c G)
      (fun c' => .given c'.Allowed (Sentences.definitionsFrom c' G)) ts ((defined c).read ts) := by
  have hfront : ∀ w v, w.head? = (texts ts).head? → Sentences.definitionsFrom c G w v →
      definitionSentences (fun d => Sentences.definitionsFrom (c.define d) G) w v := by
    intro w v hw h
    refine hG.definitionSentences_of_front ?_ h
    rw [hw, hstart]
    decide
  have hread := follows_definition (C := Proviso.fresh c) (hG.possible_define hc) ts
    (hG.possible_definitionSentences hc)
  rw [defined, read_bind]
  generalize hfirst : definition.read ts = first at hread ⊢
  cases hread with
  | @stopped used more _ t _ _ split blamed viable impossible =>
    refine .stopped split blamed ?_ ?_
    · intro hC
      rw [split] at hstart
      exact hG.viable hc hstart hC (viable hC)
    · intro w v h
      refine impossible w v (hfront _ v ?_ h)
      rw [split, texts_append]
      exact head?_append_congr _ rfl
  | ended viable unfinished =>
    refine .ended ?_ fun v h => unfinished v (hfront _ v rfl h)
    intro hC
    rw [← List.append_nil ts] at hstart
    exact hG.viable hc hstart hC (viable hC)
  | @took used rest a _ split possible sound complete =>
    obtain ⟨name, body⟩ := a
    obtain ⟨t, more, rfl, ht, hrest⟩ := ok_of_definition hfirst
    obtain ⟨-, -, hd, -⟩ := id possible
    obtain ⟨others, rfl⟩ := hrest
    obtain rfl : used = t :: name :: others := List.append_cancel_right split.symm
    cases hnew : c.contains name.text with
    | true =>
      -- All of the definition has been read, but its name is to blame.
      have hsplit : t :: name :: (others ++ rest) = [t] ++ name :: (others ++ rest) := rfl
      have htaken : (!c.contains name.text) = false := by rw [hnew, Bool.not_true]
      simp only [read_require_bind_of_false htaken]
      refine .stopped hsplit (Cause.blames_duplicate hd.named) ?_ ?_
      · intro hC
        obtain ⟨_, v, k, rfl, h⟩ := hG.possible_definitionSentences hc
        refine hG.viable hc hstart hC ⟨k, v, k, ?_, h⟩
        rw [texts_cons, texts_nil, ht]
        rfl
      · intro w v h
        rw [texts_cons, texts_nil, ht] at h
        exact hG.not_definitionsFrom_of_taken hnew w v h
    | false =>
      have hfree : (!c.contains name.text) = true := by rw [hnew, Bool.not_false]
      simp only [require_bind_of_true hfree]
      have hallowed : (c.define ⟨name.text, body⟩).Allowed := hc.insert hd.allowed
      refine .took split (Sentences.possible_given hallowed (hG.possible_define hc _ hd)) ?_ ?_
      · intro w v h
        have hsentence := sound w v ⟨hd, h.2⟩
        simp only [texts_cons, List.cons_append, ht] at hsentence ⊢
        exact Sentences.definitionsFrom_of_new_name hnew hsentence
      · intro w v hw h
        exact ⟨hallowed, (complete w v hw (hfront _ v rfl h)).2⟩

/-- **One more definition.**  Where the body does not begin, a definition is read in
    front of further ones. -/
theorem follows_define (hG : BeforeBody G) (hc : c.Allowed)
    (hts : startsWith .begin ts = false) :
    BlockLanguage.Follows (Proviso.fresh c) (Sentences.definitionsFrom c G)
      (fun c' => .given c'.Allowed (Sentences.definitionsFrom c' G)) ts ((define c).read ts) := by
  simp only [define]
  split
  · next hinstruction => exact follows_defined hG hc (startsWith_iff.1 hinstruction)
  · next hinstruction =>
    apply follows_failAtFront (Cause.blames_unexpected _) (hG.possible_definitionsFrom hc)
    intro w v hw h
    have hbegin : w.head? ≠ some Keyword.begin.text := by
      intro hbegin
      rw [startsWith_iff.2 (hw.symm.trans hbegin)] at hts
      cases hts
    obtain ⟨_, rfl, -⟩ := hG.definitionSentences_of_front hbegin h
    exact hinstruction (startsWith_iff.2 hw.symm)

/-- What the rule of one more definition has read of the tokens. -/
theorem ok_of_define {c' : Context} {rest : Tokens} {events : List Event}
    (h : (define c).read ts = ⟨.ok c', rest, events⟩) :
    ∃ t name more body, ts = t :: name :: more ∧ t.text = Keyword.instruction.text ∧
      rest <:+ more ∧ c' = c.insert name.text (.block body) := by
  simp only [define] at h
  split at h
  · obtain ⟨⟨name, body⟩, mid, _, _, hdefinition, hbehind⟩ := ok_of_bind h
    obtain ⟨t, more, rfl, ht, hmid⟩ := ok_of_definition hdefinition
    obtain ⟨_, mid', _, _, hrequire, hpure⟩ := ok_of_bind hbehind
    cases hpure
    refine ⟨t, name, more, body, rfl, ht, ?_, rfl⟩
    exact (rest_suffix_of_ok (keeps_require _ _ _) hrequire).trans hmid
  · cases ts <;> simp [failAtFront] at h

/-- New names stay new behind a definition, whose name is taken from then on. -/
theorem fresh_of_define {c' : Context} {used rest : Tokens} {events : List Event}
    (h : (define c).read ts = ⟨.ok c', rest, events⟩) (split : ts = used ++ rest)
    {u : List String} (hfresh : (Proviso.fresh c).holds (texts used ++ u)) :
    (Proviso.fresh c').holds u := by
  obtain ⟨t, name, more, body, rfl, ht, ⟨others, rfl⟩, rfl⟩ := ok_of_define h
  obtain rfl : used = t :: name :: others := List.append_cancel_right split.symm
  -- The name defined here stands in front of those that `u` defines.
  have hnames : definedNames (texts (t :: name :: others) ++ u) =
      name.text :: definedNames (name.text :: (texts others ++ u)) := by
    simp [definedNames, ht]
  have hsub : (definedNames u).Sublist (definedNames (name.text :: (texts others ++ u))) :=
    definedNames_sublist_append (name.text :: texts others) u
  obtain ⟨hnodup, hfree⟩ := hfresh
  rw [hnames] at hnodup hfree
  obtain ⟨hnot, hnodup⟩ := List.nodup_cons.1 hnodup
  refine ⟨hnodup.sublist hsub, fun n hn => ?_⟩
  rw [Context.contains_insert, hfree n (List.mem_cons_of_mem _ (hsub.mem hn)), Bool.or_false,
    decide_eq_false_iff_not]
  rintro rfl
  exact hnot (hsub.mem hn)

/-- **Definitions up to the body of a program.**  They are read in front of it,
    and what has been read when they fail can be completed if it defines new
    names only. -/
theorem follows_definitionsFrom (hG : BeforeBody G) (hc : c.Allowed) (ts : Tokens) :
    BlockLanguage.Follows (Proviso.fresh c) (Sentences.definitionsFrom c G)
      (fun c' => .given c'.Allowed (G c')) ts
      ((iterate (startsWith .begin) define progresses_define c).read ts) := by
  -- The number of tokens left bounds the repetition; the names that are taken grow with it.
  induction hn : ts.length using Nat.strongRecOn generalizing c ts with
  | ind n ih =>
    cases hbegin : startsWith .begin ts with
    | true =>
      -- The body begins here, so there is no definition.
      have hhead := startsWith_iff.1 hbegin
      rw [read_iterate_stop hbegin]
      refine .took (List.nil_append ts).symm
        (Sentences.possible_given hc (hG.possible c hc)) ?_ ?_
      · intro w v h
        obtain ⟨-, h⟩ := h
        exact Sentences.definitionsFrom_of_behind h
      · intro w v hw h
        rcases Sentences.definitionsFrom_cases h with h | ⟨d, k, rfl, -⟩
        · exact ⟨hc, h⟩
        · have hword : Keyword.instruction.text = Keyword.begin.text :=
            Option.some.inj (hw.trans hhead)
          exact absurd hword (by decide)
    | false =>
      rw [read_iterate_step hbegin]
      have hfirst := follows_define hG hc hbegin
      refine hfirst.bind (D := Proviso.fresh) ?_ ?_
      · intro c' hc' h
        obtain ⟨_, _, hallowed, _⟩ := h
        have hlt : ((define c).read ts).rest.length < n := hn ▸ progresses_define c ts c' hc'
        have htail := ih _ hlt hallowed ((define c).read ts).rest rfl
        exact htail.widen (fun _ _ h => ⟨hallowed, h⟩) fun _ _ _ h => h.2
      · intro c' used hc' split u
        match hread : (define c).read ts with
        | ⟨outcome, rest, events⟩ =>
          rw [hread] at hc' split
          obtain rfl := hc'
          exact fresh_of_define hread split

/-! ### Whole programs -/

/-- The end mark is the last token, and nothing may stand behind it. -/
theorem follows_endOfInput (v : V) :
    endOfInput.Follows C (.word endMark (.done v)) fun _ => Sentences.done v := by
  refine (follows_endMark (Sentences.possible_done v)).bind fun _ => ?_
  intro ts hpossible
  cases ts with
  | nil =>
    have hsplit : ([] : Tokens) = [] ++ [] := rfl
    exact .took hsplit hpossible (fun _ _ h => h) fun _ _ _ h => h
  | cons t more =>
    have hsplit : t :: more = [] ++ t :: more := rfl
    refine .stopped hsplit (Cause.blames_afterEnd _) (fun _ => hpossible) ?_
    intro w v' h
    obtain ⟨h, -⟩ := h
    cases h

/-- A check that is passed goes on with its answer. -/
theorem checked_bind {β : Type} {answer : Except Violation α} {a : α} (h : answer = .ok a)
    (f : α → Rule β) : (checked answer >>= f) = f a := by
  subst h
  rfl

/-- A name, a context and a body that are in order pass the checks of a program. -/
theorem assembled {n : String} {context : Context} {body : List Statement}
    (hn : isIdentifier n = true) (hcontext : context.Allowed)
    (hbody : Statement.anyHasBlock body = false) :
    (do
      let named ← checked (Program.unnamed.setName n)
      let (equipped, _) ← checked (named.swapContext context)
      let (complete, _) ← checked (equipped.swapBody (.block body))
      return complete : Rule Program) = pure ⟨n, context, .block body⟩ := by
  have hflat : (Statement.block body).hasNestedBlock = false := hbody
  rw [checked_bind (Program.setName_eq_ok_iff.2 ⟨hn, rfl⟩),
    checked_bind (Program.swapContext_eq_ok_iff.2 ⟨hcontext, rfl⟩)]
  simp only
  rw [checked_bind (Program.swapBody_eq_ok_iff.2 ⟨⟨rfl, hflat⟩, rfl⟩)]

/-- The body of a program named `n` that defines what `context` maps. -/
def bodySentences (n : String) (context : Context) : Sentences Program :=
  .word Keyword.begin.text <| .statements nestingLimit fun body => .word Keyword.end_.text <|
    .word n <| .word endMark <| .done ⟨n, context, .block body⟩

/-- Whole programs and the end mark. -/
def programSentences : Sentences Program :=
  .word Keyword.program.text <| .name fun n => .word Keyword.is.text <|
    .definitionsFrom Context.empty <| bodySentences n

theorem beforeBody_bodySentences (n : String) : BeforeBody (bodySentences n) := by
  constructor
  · intro context _
    refine Sentences.possible_word.2 (Sentences.possible_statements ?_)
    simpa using Sentences.possible_done _
  · exact fun context w v h => Sentences.head?_of_word h

/-- The sentences of programs are the words of drafts in order, each with the
    program that it writes. -/
theorem programSentences_iff {w : List String} {p : Program} :
    programSentences w p ↔
      ∃ d : Draft, d.WellFormed ∧ w = d.words ++ [endMark] ∧ p = d.program := by
  constructor
  · rintro ⟨_, rfl, n, _, rfl, hn, _, rfl, ds, _, rfl, hds, _, rfl, body, _, rfl, hb, _, rfl, _,
      rfl, _, rfl, rfl, rfl⟩
    obtain ⟨hall, hnodup, -⟩ := Context.admits_iff.1 hds
    exact ⟨⟨n, ds, body⟩, ⟨hn, hall, hnodup, hb⟩, by simp [Draft.words], rfl⟩
  · intro h
    obtain ⟨⟨n, ds, body⟩, hd, rfl, rfl⟩ := h
    exact ⟨_, by simp [Draft.words], n, _, rfl, hd.named, _, rfl, ds, _, rfl, hd.admits, _, rfl,
      body, _, rfl, hd.readable, _, rfl, _, rfl, _, rfl, rfl, rfl⟩

theorem possible_programSentences : programSentences.Possible := by
  have hname : isIdentifier "x" = true := by decide +kernel
  refine Sentences.possible_word.2 (Sentences.possible_name hname (Sentences.possible_word.2 ?_))
  exact (beforeBody_bodySentences "x").possible_definitionsFrom Context.allowed_empty

/-- **Whole programs.**  The rule reads the words of drafts in order and the end
    mark behind them. -/
theorem follows_program : program.Follows (Proviso.fresh Context.empty) programSentences .done := by
  have hdefinitions : ∀ n, (Sentences.definitionsFrom Context.empty (bodySentences n)).Possible :=
    fun n => (beforeBody_bodySentences n).possible_definitionsFrom Context.allowed_empty
  refine (follows_keyword .program ?_).bind fun _ => (follows_identifier .programName ?_).bind
    fun name => Follows.given fun hn => (follows_keyword .is (hdefinitions _)).bind fun _ =>
    Follows.bind (fun ts _ => follows_definitionsFrom (beforeBody_bodySentences _)
      Context.allowed_empty ts) fun context => Follows.given fun hcontext =>
    (follows_keyword .begin ?_).bind fun _ => (readsBlocks_block nestingLimit _ ?_ ?_).bind
    fun body => Follows.given fun hb => (follows_keyword .end_ ?_).bind fun _ =>
    (follows_closingName _ _ hn ?_).bind fun _ => (follows_endOfInput _).bind fun _ =>
    (follows_emit _).bind fun _ => ?_
  · obtain ⟨_, v, _, rfl, h⟩ := possible_programSentences
    exact ⟨_, v, h⟩
  · exact fun n _ => Sentences.possible_word.2 (hdefinitions n)
  · apply Sentences.possible_statements
    simpa using Sentences.possible_done _
  · intro body _
    simpa using Sentences.possible_done _
  · exact fun body => Sentences.endsBlock_word (.inl rfl)
  · simpa using Sentences.possible_done _
  · simpa using Sentences.possible_done _
  · rw [assembled hn hcontext hb.flat]
    exact follows_pure _

end Rule

end BlockLanguage
