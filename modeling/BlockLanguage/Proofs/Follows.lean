import BlockLanguage.Grammar.Rule
import BlockLanguage.Proofs.Blame
import BlockLanguage.Proofs.Readable

namespace BlockLanguage

/-!
# Rules that follow sentences

What the tokens to come may spell is a set of sentences, each with its meaning.
A rule follows such a set when reading narrows it and nothing else: after a
success the sentences left are those that go on behind the words read, and a
failure blames the first token behind which no sentence goes on.

* `Sentences`, `Sentences.Possible` — such sets, and those with a sentence at all;
* `Sentences.word`, `name`, `condition`, `statement`, `statements`, `given`,
  `either` — sets described by how their sentences begin;
* `Proviso` — conditions on the words read, under which a failure promises that
  they can still be completed;
* `Follows` — one answer follows a set, `Rule.Follows` — all answers of a rule do;
* `Follows.bind`, `Follows.widen` — a rule behind another, and a rule selected by
  the token to come;
* `Rule.follows_keyword` and its companions — the steps that read one token.
-/

/-- The words that tokens spell. -/
def texts (ts : Tokens) : List String := ts.map Token.text

@[simp] theorem texts_nil : texts [] = [] := rfl

@[simp] theorem texts_cons (t : Token) (ts : Tokens) : texts (t :: ts) = t.text :: texts ts := rfl

@[simp] theorem texts_append (ts us : Tokens) : texts (ts ++ us) = texts ts ++ texts us :=
  List.map_append

/-- Tokens that spell the same words are equally many. -/
theorem length_eq_of_texts_eq {ts us : Tokens} (h : texts ts = texts us) :
    ts.length = us.length := by
  have hlength := congrArg List.length h
  rwa [texts, texts, List.length_map, List.length_map] at hlength

/-! ### Sets of sentences -/

/-- A set of lists of words, each with what it means. -/
abbrev Sentences (V : Type) := List String → V → Prop

namespace Sentences

variable {V : Type}

/-- Some sentence is in the set. -/
def Possible (G : Sentences V) : Prop := ∃ w v, G w v

/-- The word `x`, and a sentence of `H` behind it. -/
def word (x : String) (H : Sentences V) : Sentences V := fun w v => ∃ k, w = x :: k ∧ H k v

/-- A name, and a sentence behind it that may depend on the name. -/
def name (H : String → Sentences V) : Sentences V := fun w v =>
  ∃ n k, w = n :: k ∧ isIdentifier n = true ∧ H n k v

/-- A condition, and a sentence behind it that may depend on the condition. -/
def condition (H : Condition → Sentences V) : Sentences V := fun w v =>
  ∃ c k, w = c.text :: k ∧ H c k v

/-- A statement that is readable under `budget`, and a sentence behind it. -/
def statement (budget : Nat) (H : Statement → Sentences V) : Sentences V := fun w v =>
  ∃ s k, w = s.words ++ k ∧ s.Readable budget ∧ H s k v

/-- Statements that are readable under `budget`, and a sentence behind them. -/
def statements (budget : Nat) (H : List Statement → Sentences V) : Sentences V := fun w v =>
  ∃ ss k, w = Statement.wordsOf ss ++ k ∧ Statement.AllReadable budget ss ∧ H ss k v

/-- The sentences of `G` if `p` holds, and none otherwise. -/
def given (p : Prop) (G : Sentences V) : Sentences V := fun w v => p ∧ G w v

/-- The sentences of both sets. -/
def either (G H : Sentences V) : Sentences V := fun w v => G w v ∨ H w v

/-- Nothing more, with the meaning `v`. -/
def done (v : V) : Sentences V := fun w v' => w = [] ∧ v' = v

@[simp] theorem possible_word {x : String} {H : Sentences V} :
    (word x H).Possible ↔ H.Possible := by
  constructor
  · intro h
    obtain ⟨w, v, k, -, h⟩ := h
    exact ⟨k, v, h⟩
  · intro h
    obtain ⟨k, v, h⟩ := h
    exact ⟨x :: k, v, k, rfl, h⟩

theorem possible_condition {H : Condition → Sentences V} (h : ∀ c, (H c).Possible) :
    (condition H).Possible := by
  obtain ⟨k, v, hk⟩ := h .random
  exact ⟨Condition.random.text :: k, v, .random, k, rfl, hk⟩

theorem possible_name {H : String → Sentences V} {n : String} (hn : isIdentifier n = true)
    (h : (H n).Possible) : (name H).Possible := by
  obtain ⟨k, v, hk⟩ := h
  exact ⟨n :: k, v, n, k, rfl, hn, hk⟩

/-- The call of a primitive instruction is readable under any budget. -/
theorem possible_statement {budget : Nat} {H : Statement → Sentences V}
    (h : ∀ s, s.Readable budget → (H s).Possible) : (statement budget H).Possible := by
  have hcall : (Statement.call "move").Readable budget :=
    Statement.readable_call.2 (by decide +kernel)
  obtain ⟨k, v, hk⟩ := h _ hcall
  exact ⟨_, v, .call "move", k, rfl, hcall, hk⟩

/-- No statement at all can stand for statements. -/
theorem possible_statements {budget : Nat} {H : List Statement → Sentences V}
    (h : (H []).Possible) : (statements budget H).Possible := by
  obtain ⟨k, v, hk⟩ := h
  exact ⟨k, v, [], k, rfl, Statement.allReadable_nil, hk⟩

theorem possible_given {p : Prop} {G : Sentences V} (hp : p) (h : G.Possible) :
    (given p G).Possible := by
  obtain ⟨w, v, hw⟩ := h
  exact ⟨w, v, hp, hw⟩

theorem possible_either_right {G H : Sentences V} (h : H.Possible) : (either G H).Possible := by
  obtain ⟨w, v, hw⟩ := h
  exact ⟨w, v, .inr hw⟩

theorem possible_done (v : V) : (done v).Possible := ⟨[], v, rfl, rfl⟩

/-- A sentence of `word x H` begins with `x`. -/
theorem head?_of_word {x : String} {H : Sentences V} {w : List String} {v : V}
    (h : word x H w v) : w.head? = some x := by
  obtain ⟨k, rfl, -⟩ := h
  rfl

end Sentences

/-! ### Following a set of sentences -/

/-- A condition on words that goes over to what is left of them. -/
structure Proviso where
  holds : List String → Prop
  of_append : ∀ {u w : List String}, holds (u ++ w) → holds w

variable {V α β : Type} {C D : Proviso} {G G' : Sentences V} {H : α → Sentences V}
  {K : β → Sentences V} {ts : Tokens}

/-- The answer to the tokens `ts` follows the set `G`, and leaves the set `H a`
    when it is `a`.  The tokens left are seen as far as their first, so only the
    sentences that agree with it need be left. -/
inductive Follows (C : Proviso) (G : Sentences V) (H : α → Sentences V) (ts : Tokens) :
    Reading Failure α → Prop
  | took {used rest : Tokens} {a : α} {events : List Event}
      (split : ts = used ++ rest)
      (possible : (H a).Possible)
      (sound : ∀ w v, H a w v → G (texts used ++ w) v)
      (complete : ∀ w v, w.head? = (texts rest).head? → G (texts used ++ w) v → H a w v) :
      Follows C G H ts ⟨.ok a, rest, events⟩
  | stopped {used more rest : Tokens} {t : Token} {cause : Cause} {events : List Event}
      (split : ts = used ++ t :: more)
      (blamed : cause.Blames t.text)
      (viable : C.holds (texts used) → ∃ w v, G (texts used ++ w) v)
      (impossible : ∀ w v, ¬ G (texts used ++ t.text :: w) v) :
      Follows C G H ts ⟨.error (.onToken t.position cause), rest, events⟩
  | ended {expected : Expected} {rest : Tokens} {events : List Event}
      (viable : C.holds (texts ts) → ∃ w v, G (texts ts ++ w) v)
      (unfinished : ∀ v, ¬ G (texts ts) v) :
      Follows C G H ts ⟨.error (.pastLast expected), rest, events⟩

/-- A rule follows a possible set of sentences on all tokens. -/
def Rule.Follows (C : Proviso) (G : Sentences V) (r : Rule α) (H : α → Sentences V) : Prop :=
  ∀ ts, G.Possible → BlockLanguage.Follows C G H ts (r.read ts)

/-- What stands in front does not change which words begin alike. -/
theorem head?_append_congr {w w' : List String} (u : List String) (h : w.head? = w'.head?) :
    (u ++ w).head? = (u ++ w').head? := by
  rw [List.head?_append, List.head?_append, h]

namespace Follows

/-- The events on the way do not matter. -/
theorem withEvents {x : Reading Failure α} (h : Follows C G H ts x) (events : List Event) :
    Follows C G H ts ⟨x.outcome, x.rest, events⟩ := by
  cases h with
  | took split possible sound complete => exact .took split possible sound complete
  | stopped split blamed viable impossible => exact .stopped split blamed viable impossible
  | ended viable unfinished => exact .ended viable unfinished

/-- **Tokens in front.**  An answer that follows `G'` behind the tokens `used`
    follows `G` on all tokens, if `G'` is what `used` leaves of `G`. -/
theorem prepend {used rest : Tokens} {x : Reading Failure α} (h : Follows D G' H rest x)
    (split : ts = used ++ rest)
    (sound : ∀ w v, G' w v → G (texts used ++ w) v)
    (complete : ∀ w v, w.head? = (texts rest).head? → G (texts used ++ w) v → G' w v)
    (proviso : ∀ u, C.holds (texts used ++ u) → D.holds u) : Follows C G H ts x := by
  cases h with
  | @took used' rest' _ _ split' possible' sound' complete' =>
    -- `complete` sees the first token left here, which `used'` or `rest'` begins with.
    have hsplit : ts = (used ++ used') ++ rest' := by rw [split, split', List.append_assoc]
    refine .took hsplit possible' ?_ ?_
    · intro w v h
      rw [texts_append, List.append_assoc]
      exact sound _ v (sound' w v h)
    · intro w v hw h
      rw [texts_append, List.append_assoc] at h
      refine complete' w v hw (complete _ v ?_ h)
      rw [split', texts_append]
      exact head?_append_congr _ hw
  | @stopped used' more _ t _ _ split' blamed viable impossible =>
    have hsplit : ts = (used ++ used') ++ t :: more := by rw [split, split', List.append_assoc]
    refine .stopped hsplit blamed ?_ ?_
    · intro hC
      rw [texts_append] at hC ⊢
      obtain ⟨w, v, h⟩ := viable (proviso _ hC)
      exact ⟨w, v, by rw [List.append_assoc]; exact sound _ v h⟩
    · intro w v h
      rw [texts_append, List.append_assoc] at h
      refine impossible w v (complete _ v ?_ h)
      rw [split', texts_append]
      exact head?_append_congr _ rfl
  | ended viable unfinished =>
    refine .ended ?_ ?_
    · intro hC
      rw [split, texts_append] at hC ⊢
      obtain ⟨w, v, h⟩ := viable (proviso _ hC)
      exact ⟨w, v, by rw [List.append_assoc]; exact sound _ v h⟩
    · intro v h
      rw [split, texts_append] at h
      exact unfinished v (complete _ v rfl h)

/-- **A rule selected by the token to come.**  It need only follow the sentences
    that begin with this token. -/
theorem widen {x : Reading Failure α} (h : Follows C G' H ts x)
    (hsub : ∀ w v, G' w v → G w v)
    (hfront : ∀ w v, w.head? = (texts ts).head? → G w v → G' w v) : Follows C G H ts x :=
  h.prepend (List.nil_append ts).symm hsub hfront fun _ hC => hC

/-- **One rule behind another.**  The second follows what the first leaves.  The
    proviso may change on the way, if it goes over. -/
theorem bind {r : Rule α} {f : α → Rule β} {D : α → Proviso} (hr : Follows C G H ts (r.read ts))
    (hf : ∀ a, (r.read ts).outcome = .ok a → (H a).Possible →
      Follows (D a) (H a) K (r.read ts).rest ((f a).read (r.read ts).rest))
    (hD : ∀ a used, (r.read ts).outcome = .ok a → ts = used ++ (r.read ts).rest →
      ∀ u, C.holds (texts used ++ u) → (D a).holds u) :
    Follows C G K ts ((r >>= f).read ts) := by
  rw [Rule.read_bind]
  generalize r.read ts = first at hr hf hD
  -- A failure of the first rule is the failure of both.
  cases hr with
  | stopped split blamed viable impossible => exact .stopped split blamed viable impossible
  | ended viable unfinished => exact .ended viable unfinished
  | took split possible sound complete =>
    exact ((hf _ rfl possible).prepend split sound complete (hD _ _ rfl split)).withEvents _

/-- One rule behind another, under one proviso. -/
theorem bind_same {r : Rule α} {f : α → Rule β} (hr : Follows C G H ts (r.read ts))
    (hf : ∀ a, (r.read ts).outcome = .ok a → (H a).Possible →
      Follows C (H a) K (r.read ts).rest ((f a).read (r.read ts).rest)) :
    Follows C G K ts ((r >>= f).read ts) :=
  hr.bind (D := fun _ => C) hf fun _ _ _ _ _ h => C.of_append h

end Follows

namespace Rule

/-- One rule behind another, under one proviso. -/
theorem Follows.bind {r : Rule α} {f : α → Rule β} (hr : r.Follows C G H)
    (hf : ∀ a, (f a).Follows C (H a) K) : (r >>= f).Follows C G K := fun ts hG =>
  (hr ts hG).bind_same fun a _ ha => hf a _ ha

/-- Sentences that are there under a condition only are followed under it. -/
theorem Follows.given {p : Prop} {r : Rule α} (h : p → r.Follows C G H) :
    r.Follows C (Sentences.given p G) H := by
  intro ts h
  obtain ⟨w, v, hp, hw⟩ := h
  exact (h hp ts ⟨w, v, hw⟩).widen (fun _ _ hG => ⟨hp, hG⟩) fun _ _ _ hG => hG.2

/-! ### Steps that read no token -/

/-- A step that answers `a` without reading follows what `a` leaves. -/
theorem follows_of_read {r : Rule α} {a : α} {events : List Event}
    (h : ∀ ts, r.read ts = ⟨.ok a, ts, events⟩) : r.Follows C (H a) H := by
  intro ts hH
  rw [h]
  exact .took (List.nil_append ts).symm hH (fun _ _ h => h) fun _ _ _ h => h

theorem follows_pure (a : α) : (pure a : Rule α).Follows C (H a) H :=
  follows_of_read fun _ => rfl

theorem follows_emit (event : Event) : (emit event).Follows C G fun _ => G :=
  follows_of_read (H := fun _ => G) fun _ => rfl

theorem follows_checked {answer : Except Violation α} {a : α} (h : answer = .ok a) :
    (checked answer).Follows C (H a) H := by
  subst h
  exact follows_of_read fun _ => rfl

/-- A failure at the next token follows a set no sentence of which begins with
    this token. -/
theorem follows_failAtFront {expected : Expected} {cause : String → Cause}
    (hcause : ∀ s, (cause s).Blames s) (hG : G.Possible)
    (hfront : ∀ w v, w.head? = (texts ts).head? → ¬ G w v) :
    BlockLanguage.Follows C G H ts ((failAtFront expected cause : Rule α).read ts) := by
  cases ts with
  | nil => exact .ended (fun _ => hG) fun v => hfront [] v rfl
  | cons t more =>
    have hsplit : t :: more = [] ++ t :: more := rfl
    exact .stopped hsplit (hcause t.text) (fun _ => hG) fun w v => hfront (t.text :: w) v rfl

/-! ### Steps that read one token -/

/-- **Reading a token.**  Each sentence begins with a word; the words that some
    sentence begins with have a value, and the value tells what may follow. -/
theorem follows_token {expected : Expected} {accept : Token → Option α}
    (hnil : ∀ v, ¬ G [] v)
    (haccept : ∀ t a, accept t = some a →
      (H a).Possible ∧ ∀ w v, G (t.text :: w) v ↔ H a w v)
    (hreject : ∀ t, accept t = none → ∀ w v, ¬ G (t.text :: w) v) :
    (token expected accept).Follows C G H := by
  intro ts hG
  cases ts with
  | nil => exact .ended (fun _ => hG) hnil
  | cons t more =>
    cases hval : accept t with
    | some a =>
      -- The value tells which sentences go on behind the token, and some do.
      rw [read_token_some expected hval]
      have hsplit : t :: more = [t] ++ more := rfl
      obtain ⟨hpossible, hiff⟩ := haccept t a hval
      exact .took hsplit hpossible (fun w v => (hiff w v).2) fun w v _ => (hiff w v).1
    | none =>
      -- No sentence begins with the token, though some sentence is left.
      rw [read_token_none expected hval]
      have hsplit : t :: more = [] ++ t :: more := rfl
      exact .stopped hsplit (Cause.blames_unexpected _ _) (fun _ => hG) (hreject t hval)

/-- A reserved word is read in front of what follows it. -/
theorem follows_keyword (k : Keyword) {G : Sentences V} (hG : G.Possible) :
    (keyword k).Follows C (Sentences.word k.text G) fun _ => G := by
  refine follows_token ?_ ?_ ?_
  · intro v h
    obtain ⟨w, h, -⟩ := h
    cases h
  · intro t _ h
    split at h
    · next ht => exact ⟨hG, fun w v => by simp [Sentences.word, ht]⟩
    · cases h
  · intro t h w v hw
    split at h
    · cases h
    · next ht =>
      obtain ⟨k', hk, -⟩ := hw
      exact ht (List.cons.inj hk).1

/-- The end mark is read in front of what follows it. -/
theorem follows_endMark {G : Sentences V} (hG : G.Possible) :
    (token .endOfInput fun t => if t.isEnd then some () else none).Follows C
      (Sentences.word endMark G) fun _ => G := by
  refine follows_token ?_ ?_ ?_
  · intro v h
    obtain ⟨w, h, -⟩ := h
    cases h
  · intro t _ h
    split at h
    · next ht =>
      have htext : t.text = endMark := by simpa [Token.isEnd] using ht
      exact ⟨hG, fun w v => by simp [Sentences.word, htext]⟩
    · cases h
  · intro t h w v hw
    split at h
    · cases h
    · next ht =>
      obtain ⟨k, hk, -⟩ := hw
      exact ht (by simp [Token.isEnd, (List.cons.inj hk).1])

/-- A condition is read in front of what follows it. -/
theorem follows_condition (after : Keyword) {G : Condition → Sentences V}
    (hG : ∀ c, (G c).Possible) : (condition after).Follows C (Sentences.condition G) G := by
  rw [condition_eq]
  refine follows_token ?_ ?_ ?_
  · intro v h
    obtain ⟨c, w, h, -⟩ := h
    cases h
  · intro t c h
    have ht := Condition.ofText?_eq_some_iff.1 h
    refine ⟨hG c, fun w v => ⟨?_, fun hw => ⟨c, w, by rw [ht], hw⟩⟩⟩
    intro h
    obtain ⟨d, k, hk, hw⟩ := h
    obtain ⟨htext, rfl⟩ := List.cons.inj hk
    rwa [Condition.text_injective (ht.trans htext)]
  · intro t h w v hG
    obtain ⟨c, k, hk, -⟩ := hG
    rw [Condition.ofText?_eq_some_iff.2 (List.cons.inj hk).1.symm] at h
    cases h

/-- A name is read in front of what follows it. -/
theorem follows_identifier (role : Role) {G : String → Sentences V}
    (hG : ∀ n, isIdentifier n = true → (G n).Possible) :
    (identifier role).Follows C (Sentences.name G) fun t =>
      Sentences.given (isIdentifier t.text = true) (G t.text) := by
  refine follows_token ?_ ?_ ?_
  · intro v h
    obtain ⟨n, w, h, -⟩ := h
    cases h
  · intro t u h
    split at h
    · next ht =>
      obtain rfl := Option.some.inj h
      refine ⟨Sentences.possible_given ht (hG _ ht), fun w v => ⟨?_, ?_⟩⟩
      · intro h
        obtain ⟨n, k, hk, hn, hw⟩ := h
        obtain ⟨rfl, rfl⟩ := List.cons.inj hk
        exact ⟨hn, hw⟩
      · intro h
        obtain ⟨hn, hw⟩ := h
        exact ⟨_, w, rfl, hn, hw⟩
    · cases h
  · intro t h w v hG
    obtain ⟨n, k, hk, hn, -⟩ := hG
    split at h
    · cases h
    · next ht => exact ht ((List.cons.inj hk).1 ▸ hn)

end Rule

end BlockLanguage
