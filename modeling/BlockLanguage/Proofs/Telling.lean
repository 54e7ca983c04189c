import BlockLanguage.Proofs.Check
import BlockLanguage.Proofs.Editing
import BlockLanguage.Proofs.Margins
import BlockLanguage.Proofs.NestedPrograms
import Mathlib.Data.List.Perm.Basic

namespace BlockLanguage

/-!
# What a reading tells

The rules of the grammar tell of each statement when it is complete, of each definition behind
its statements, and of a program behind everything else.  So the events of a reading are the
nodes of the draft that was read, in post-order; the order in which the definitions are
written is kept, though the program forgets it.

* `Statement.postorder`, `Statement.postorder_perm_nodes` — the kinds of the branches, loops and
  calls of a tree;
* `Definition.events`, `Draft.events` — what a reading of these is to tell;
* `Program.nodes`, `Draft.WellFormed.perm_nodes` — what is told of a draft are the nodes of the
  program that it writes;
* `Reading.Tells`, `Rule.Tells` — what holds of the events behind a success;
* `Rule.tells_statement`, `Rule.tells_block`, `Rule.tells_definition` — the rules;
* `Rule.read_definitions_of_words`, `Rule.events_program_of_words` — definitions and programs;
* `log_observes_reading` — the commands as they are seen from outside.
-/

/-! ### Nodes in post-order -/

namespace Statement

mutual

/-- The kinds of the branches, loops and calls of a statement, each behind those beneath it. -/
def postorder : Statement → List Kind
  | .block children => postorderOf children
  | .ifThen _ body => postorderOf body ++ [.ifThen]
  | .ifElse _ thenBody elseBody => postorderOf thenBody ++ postorderOf elseBody ++ [.ifElse]
  | .whileDo _ body => postorderOf body ++ [.whileDo]
  | .call _ => [.call]

/-- The same for statements one after the other. -/
def postorderOf : List Statement → List Kind
  | [] => []
  | s :: ss => s.postorder ++ postorderOf ss

end

theorem postorderOf_append (ss ts : List Statement) :
    postorderOf (ss ++ ts) = postorderOf ss ++ postorderOf ts := by
  induction ss with
  | nil => rfl
  | cons s ss ih =>
    show s.postorder ++ postorderOf (ss ++ ts) = s.postorder ++ postorderOf ss ++ postorderOf ts
    rw [ih, List.append_assoc]

/-- **Post-order.**  The kinds are those of the nodes of a tree, each as often as there are nodes
    of this kind. -/
theorem postorder_perm_nodes :
    (∀ (s : Statement) (depth : Nat),
      s.postorder.Perm ((s.nodesFrom depth).map fun n => n.statement.kind)) ∧
    ∀ (ss : List Statement) (depth : Nat),
      (postorderOf ss).Perm ((nodesOfFrom depth ss).map fun n => n.statement.kind) := by
  refine induction ?_ ?_ ?_ ?_ ?_ ?_ ?_
  · intro cs ih depth
    exact ih depth
  · intro c b ih depth
    exact (List.perm_append_singleton _ _).trans ((ih (depth + 1)).cons _)
  · intro c a b iha ihb depth
    refine (List.perm_append_singleton _ _).trans (List.Perm.cons _ ?_)
    rw [List.map_append]
    exact (iha (depth + 1)).append (ihb (depth + 1))
  · intro c b ih depth
    exact (List.perm_append_singleton _ _).trans ((ih (depth + 1)).cons _)
  · intro n depth
    exact List.Perm.refl _
  · intro depth
    exact List.Perm.refl _
  · intro s ss ihs ihss depth
    simp only [postorderOf, nodesOfFrom, List.map_append]
    exact (ihs depth).append (ihss depth)

/-- What is told of statements one after the other. -/
def eventsOf (ss : List Statement) : List Event := (postorderOf ss).map .statement

end Statement

/-- What is told of a definition: its statements, and then its name and their number. -/
def Definition.events (d : Definition) : List Event :=
  Statement.eventsOf d.body ++ [.definition d.name d.body.length]

/-- What is told of a draft: its definitions, its body, and then its name and their number. -/
def Draft.events (d : Draft) : List Event :=
  d.definitions.flatMap Definition.events ++ Statement.eventsOf d.body ++
    [.program d.name d.definitions.length]

/-! ### The nodes of a program -/

/-- The kind of the statement that an event tells of. -/
def Event.kind? : Event → Option Kind
  | .statement kind => some kind
  | _ => none

theorem Statement.filterMap_kind?_eventsOf (ss : List Statement) :
    (eventsOf ss).filterMap Event.kind? = postorderOf ss := by
  rw [eventsOf, List.filterMap_map]
  exact List.filterMap_some

/-- The statements that are told of: those of the definitions, and those of the body. -/
theorem Draft.filterMap_kind?_events (d : Draft) :
    d.events.filterMap Event.kind? =
      d.definitions.flatMap (fun e => Statement.postorderOf e.body) ++
        Statement.postorderOf d.body := by
  have hdefinition : ∀ e : Definition,
      e.events.filterMap Event.kind? = Statement.postorderOf e.body := by
    intro e
    rw [Definition.events, List.filterMap_append, Statement.filterMap_kind?_eventsOf]
    exact List.append_nil _
  rw [events, List.filterMap_append, List.filterMap_append, List.filterMap_flatMap,
    Statement.filterMap_kind?_eventsOf]
  simp only [hdefinition]
  exact List.append_nil _

/-- The branches, loops and calls of a program: those of its definitions, and of its body. -/
def Program.nodes (p : Program) : List Node :=
  p.context.entries.flatMap (fun e => e.2.nodes) ++ p.body.nodes

/-- **What is told are the nodes of the program**: as many statements of each kind as it has
    nodes of this kind. -/
theorem Draft.WellFormed.perm_nodes {d : Draft} (h : d.WellFormed) {p : Program}
    (hp : d.Denotes p) :
    (d.events.filterMap Event.kind?).Perm (p.nodes.map fun n => n.statement.kind) := by
  obtain rfl := h.denotes_iff.1 hp
  have hbody := Statement.postorder_perm_nodes.2 d.body 0
  have hdefinitions : (d.definitions.flatMap fun e => Statement.postorderOf e.body).Perm
      ((d.definitions.map fun e => (e.name, Statement.block e.body)).flatMap fun e =>
        e.2.nodes.map fun n => n.statement.kind) := by
    rw [List.flatMap_map]
    exact List.Perm.flatMap_left _ fun e _ => Statement.postorder_perm_nodes.2 e.body 0
  have hentries := Context.perm_entries_extend h.admits
  rw [show Context.empty.entries = [] from rfl, List.append_nil] at hentries
  rw [Draft.filterMap_kind?_events, Program.nodes, List.map_append, List.map_flatMap]
  exact (hdefinitions.trans (hentries.symm.flatMap_right _)).append hbody

/-! ### What holds of the events -/

section
variable {α β : Type} {log events : List Event} {Q : α → List Event → Prop}
  {R : β → List Event → Prop} {ts rest : Tokens}

/-- Behind a success `Q` holds of the value and of the events, with `log` in front of them. -/
def Reading.Tells (log : List Event) (x : Reading Failure α) (Q : α → List Event → Prop) : Prop :=
  ∀ a, x.outcome = .ok a → Q a (log ++ x.events)

namespace Rule

/-- The same for a rule, whatever it reads. -/
def Tells (log : List Event) (r : Rule α) (Q : α → List Event → Prop) : Prop :=
  ∀ ts, Reading.Tells log (r.read ts) Q

/-- **One rule behind another**: the events of the first stand in front. -/
theorem Tells.bind {r : Rule α} {f : α → Rule β} (hr : Tells log r Q)
    (hf : ∀ a log', Q a log' → Tells log' (f a) R) : Tells log (r >>= f) R := by
  intro ts b
  rw [read_bind]
  have hfirst := hr ts
  generalize r.read ts = first at hfirst ⊢
  obtain ⟨e | a, rest, events⟩ := first
  · intro hok
    cases hok
  · intro hok
    rw [← List.append_assoc]
    exact hf a _ (hfirst a rfl) rest b hok

/-- A rule behind one that has been read. -/
theorem tells_behind {r : Rule α} {f : α → Rule β} {a : α}
    (h : r.read ts = ⟨.ok a, rest, events⟩)
    (hf : Reading.Tells (log ++ events) ((f a).read rest) R) :
    Reading.Tells log ((r >>= f).read ts) R := by
  intro b hok
  rw [read_bind, h] at hok ⊢
  rw [← List.append_assoc]
  exact hf b hok

theorem tells_pure {a : α} (h : Q a log) : Tells log (pure a : Rule α) Q := by
  intro ts b hok
  cases hok
  show Q a (log ++ [])
  rwa [List.append_nil]

/-- What is told joins what has been told. -/
theorem tells_emit_bind {event : Event} {f : Unit → Rule β} (h : Tells (log ++ [event]) (f ()) R) :
    Tells log (emit event >>= f) R := fun ts => tells_behind rfl (h ts)

theorem tells_checked {answer : Except Violation α} (h : ∀ a, answer = .ok a → Q a log) :
    Tells log (checked answer) Q := by
  intro ts a hok
  cases answer with
  | error v => cases hok
  | ok b =>
    cases hok
    show Q a (log ++ [])
    rw [List.append_nil]
    exact h a rfl

/-- A checked operation goes on with its answer. -/
theorem tells_checked_bind {answer : Except Violation α} {f : α → Rule β}
    (h : ∀ a, answer = .ok a → Tells log (f a) R) : Tells log (checked answer >>= f) R := by
  have hanswer : Tells log (checked answer) fun a log' => answer = .ok a ∧ log' = log :=
    tells_checked fun a ha => ⟨ha, rfl⟩
  refine hanswer.bind ?_
  rintro a _ ⟨ha, rfl⟩
  exact h a ha

theorem tells_failAtFront (expected : Expected) (cause : String → Cause) :
    Tells log (failAtFront expected cause : Rule α) Q := by
  intro ts a hok
  cases ts <;> cases hok

/-- A repetition keeps what each of its steps keeps. -/
theorem tells_iterate {σ : Type} {stop : Tokens → Bool} {step : σ → Rule σ}
    {progress : ∀ s, (step s).Progresses} {I : σ → List Event → Prop}
    (hstep : ∀ s log, I s log → Tells log (step s) I) (s : σ) :
    ∀ log, I s log → Tells log (iterate stop step progress s) I := by
  suffices h : ∀ ts log, I s log → Reading.Tells log (iterateFrom stop step progress s ts) I from
    fun log hs ts => h ts log hs
  intro ts
  fun_induction iterateFrom stop step progress s ts with
  | case1 s ts hstop =>
    intro log hs a hok
    cases hok
    show I s (log ++ [])
    rwa [List.append_nil]
  | case2 s ts hstop e rest events hread =>
    intro log hs a hok
    cases hok
  | case3 s ts hstop t rest events hread reading ih =>
    intro log hs a hok
    have hfirst := hstep s log hs ts
    rw [hread] at hfirst
    have hrest := ih _ (hfirst t rfl) a hok
    rwa [List.append_assoc] at hrest

/-! ### Rules that tell nothing -/

/-- The rule tells nothing. -/
def Silent (r : Rule α) : Prop := ∀ ts, (r.read ts).events = []

/-- Behind a rule that tells nothing, only the next one counts. -/
theorem Silent.then_tells {r : Rule α} {f : α → Rule β} (hr : r.Silent)
    (hf : ∀ a, Tells log (f a) R) : Tells log (r >>= f) R := by
  have hsame : Tells log r fun _ log' => log' = log := fun ts a _ => by
    rw [hr ts, List.append_nil]
  exact hsame.bind fun a log' hlog => hlog ▸ hf a

theorem Silent.bind {r : Rule α} {f : α → Rule β} (hr : r.Silent) (hf : ∀ a, (f a).Silent) :
    (r >>= f).Silent := by
  intro ts
  have hfirst := hr ts
  rw [read_bind]
  generalize r.read ts = first at hfirst ⊢
  obtain ⟨e | a, rest, events⟩ := first
  · exact hfirst
  · show events ++ ((f a).read rest).events = []
    rw [hf a rest, List.append_nil]
    exact hfirst

theorem silent_token (expected : Expected) (accept : Token → Option α) :
    (token expected accept).Silent := by
  intro ts
  cases ts with
  | nil => rfl
  | cons t ts =>
    cases hval : accept t with
    | none => rw [read_token_none _ hval]
    | some a => rw [read_token_some _ hval]

theorem silent_condition (after : Keyword) : (condition after).Silent :=
  condition_eq after ▸ silent_token _ _

theorem silent_lookAhead (f : Tokens → α) : (lookAhead f).Silent := fun _ => rfl

theorem silent_require (holds : Bool) (position : Position) (cause : Cause) :
    (require holds position cause).Silent := by
  intro ts
  cases holds <;> rfl

theorem silent_nothing (t : Option Token) : (nothing t).Silent := by
  intro ts
  cases t <;> rfl

theorem silent_closing (k : Keyword) : (closing k).Silent :=
  (silent_token _ _).bind fun _ => silent_token _ _

theorem silent_closingName (of : Section) (role : Role) (opening : Token) :
    (closingName of role opening).Silent :=
  (silent_token _ _).bind fun _ => silent_require _ _ _

theorem silent_endOfInput : endOfInput.Silent :=
  (silent_token _ _).bind fun _ => (silent_lookAhead _).bind fun _ => silent_nothing _

end Rule

end

/-! ### Statements -/

namespace Rule

open Statement (eventsOf postorderOf)

variable {log : List Event} {inner : Rule (List Statement)}

/-- The rule tells of the statements that it reads. -/
def TellsBlock (inner : Rule (List Statement)) : Prop :=
  ∀ log, Tells log inner fun ss log' => log' = log ++ eventsOf ss

/-- What has been told, and the statement itself, is what is to be told of the statement. -/
def Announces (log : List Event) (s : Statement) (log' : List Event) : Prop :=
  log' ++ [.statement s.kind] = log ++ s.postorder.map .statement

theorem tells_loop (h : inner.TellsBlock) : Tells log (loop inner) (Announces log) := by
  refine (silent_token _ _).then_tells fun _ => (silent_condition _).then_tells fun c =>
    (silent_token _ _).then_tells fun _ => (h log).bind ?_
  rintro body _ rfl
  refine (silent_closing _).then_tells fun _ => tells_checked fun s hs => ?_
  obtain ⟨_, ⟨hbody, -⟩, rfl⟩ := Statement.makeWhile_eq_ok_iff.1 hs
  cases hbody
  simp [Announces, eventsOf, Statement.postorder, Statement.kind]

theorem tells_branch (h : inner.TellsBlock) : Tells log (branch inner) (Announces log) := by
  refine (silent_token _ _).then_tells fun _ => (silent_condition _).then_tells fun c =>
    (silent_token _ _).then_tells fun _ => (h log).bind ?_
  rintro thenBody _ rfl
  refine (silent_lookAhead _).then_tells fun hasElse => ?_
  cases hasElse with
  | false =>
    refine (silent_closing _).then_tells fun _ => tells_checked fun s hs => ?_
    obtain ⟨_, ⟨hbody, -⟩, rfl⟩ := Statement.makeIf_eq_ok_iff.1 hs
    cases hbody
    simp [Announces, eventsOf, Statement.postorder, Statement.kind]
  | true =>
    refine (silent_token _ _).then_tells fun _ => (h _).bind ?_
    rintro elseBody _ rfl
    refine (silent_closing _).then_tells fun _ => tells_checked fun s hs => ?_
    obtain ⟨_, _, ⟨hthen, -⟩, ⟨helse, -⟩, rfl⟩ := Statement.makeIfElse_eq_ok_iff.1 hs
    cases hthen
    cases helse
    simp [Announces, eventsOf, Statement.postorder, Statement.kind]

theorem tells_call : Tells log call (Announces log) :=
  (silent_token _ _).then_tells fun _ => tells_pure rfl

theorem tells_opened {inner : Option (Rule (List Statement))}
    {compound : Rule (List Statement) → Rule Statement}
    (h : ∀ block ∈ inner, Tells log (compound block) (Announces log)) :
    Tells log (opened inner compound) (Announces log) := by
  cases inner with
  | none => exact tells_failAtFront .statement fun _ => .tooDeep
  | some block => exact h block rfl

theorem tells_selected {inner : Option (Rule (List Statement))}
    (h : ∀ block ∈ inner, TellsBlock block) : Tells log (selected inner) (Announces log) := by
  intro ts
  unfold selected
  by_cases hwhile : startsWith .while_ ts = true
  · simp only [if_pos hwhile]
    exact tells_opened (fun b hb => tells_loop (h b hb)) ts
  · by_cases hif : startsWith .if_ ts = true
    · simp only [if_neg hwhile, if_pos hif]
      exact tells_opened (fun b hb => tells_branch (h b hb)) ts
    · simp only [if_neg hwhile, if_neg hif]
      split
      · exact tells_call ts
      · exact tells_failAtFront _ _ ts

theorem tells_statementOver {inner : Option (Rule (List Statement))}
    (h : ∀ block ∈ inner, TellsBlock block) :
    Tells log (statementOver inner) fun s log' => log' = log ++ s.postorder.map .statement :=
  (tells_selected h).bind fun _ _ hlog => tells_emit_bind (tells_pure hlog)

/-- A block tells of its statements if the rule that reads them does. -/
theorem tells_blockOf {item : Rule Statement} {progress : item.Progresses}
    (h : ∀ log, Tells log item fun s log' => log' = log ++ s.postorder.map .statement) :
    (blockOf item progress).TellsBlock := by
  intro log
  -- The statements read so far have been told of; the last one stands first.
  have hread : Tells log (iterate atBlockEnd (further item) (progresses_further progress) [])
      fun read log' => log' = log ++ eventsOf read.reverse := by
    refine tells_iterate ?_ [] log (List.append_nil log).symm
    rintro read _ rfl
    refine (h _).bind ?_
    rintro s _ rfl
    refine tells_pure ?_
    simp [eventsOf, Statement.postorderOf_append, postorderOf]
  exact hread.bind fun _ _ hlog => tells_pure hlog

/-- **Statements** are told of in post-order. -/
theorem tells_statement (budget : Nat) (log : List Event) :
    Tells log (statement budget) fun s log' => log' = log ++ s.postorder.map .statement := by
  induction budget generalizing log with
  | zero => exact tells_statementOver nofun
  | succ budget ih =>
    refine tells_statementOver fun b hb => ?_
    obtain rfl := Option.some.inj hb
    exact tells_blockOf ih

/-- **Blocks** are told of in post-order. -/
theorem tells_block (budget : Nat) : (block budget).TellsBlock :=
  tells_blockOf (tells_statement budget)

/-! ### Definitions and programs -/

/-- **A definition** is told of behind its statements. -/
theorem tells_definition :
    Tells log definition fun d log' => log' = log ++ (written d).events := by
  refine (silent_token _ _).then_tells fun _ => (silent_token _ _).then_tells fun name =>
    (silent_require _ _ _).then_tells fun _ => (silent_token _ _).then_tells fun _ =>
    (tells_block _ log).bind ?_
  rintro body _ rfl
  refine (silent_token _ _).then_tells fun _ => (silent_closingName _ _ _).then_tells fun _ =>
    tells_checked_bind fun count hcount => tells_emit_bind (tells_pure ?_)
  cases hcount
  exact List.append_assoc ..

/-- A definition that has been read is what was told. -/
theorem events_of_definition {ts rest : Tokens} {d : Token × List Statement} {events : List Event}
    (h : definition.read ts = ⟨.ok d, rest, events⟩) : events = (written d).events := by
  have htells : Tells [] definition fun d log => log = (written d).events := tells_definition
  have hread := htells ts d
  rw [h] at hread
  exact hread rfl

/-- **Definitions behind each other** are told of in the order in which they are written. -/
theorem read_definitions_of_words {c : Context} {used rest : Tokens} {ds : List Definition}
    (hwords : texts used = ds.flatMap Definition.words) (hds : c.Admits ds)
    (hstop : startsWith .begin rest = true) :
    (iterate (startsWith .begin) define progresses_define c).read (used ++ rest) =
      ⟨.ok (c.extend ds), rest, ds.flatMap Definition.events⟩ := by
  induction ds generalizing c used with
  | nil =>
    obtain rfl : used = [] := List.map_eq_nil_iff.1 hwords
    exact read_iterate_stop hstop
  | cons d ds ih =>
    obtain ⟨hd, hfree, hds⟩ := hds
    rw [List.flatMap_cons] at hwords
    obtain ⟨u, v, rfl, hu, hv⟩ := List.map_eq_append_iff.1 hwords
    rw [List.append_assoc]
    have hbegin : startsWith .begin (u ++ (v ++ rest)) = false := by
      rw [← Bool.not_eq_true, startsWith_iff, texts_append, show texts u = d.words from hu]
      intro h
      exact absurd (Option.some.inj h) (by decide)
    have hsplit : u ++ (v ++ rest) = u ++ (v ++ rest) := rfl
    obtain ⟨r, events, hr, rfl⟩ := read_definition_of_words hsplit hu hd
    obtain rfl := events_of_definition hr
    have hname : c.contains r.1.text = false := hfree
    have hdefine := read_define (c := c) (startsWith_of_words hu) hr
    rw [hname] at hdefine
    rw [read_iterate_step hbegin, read_bind, hdefine]
    simp [ih hv hds]

/-- **Programs**: the words of a draft in order are told of as this draft. -/
theorem events_program_of_words {d : Draft} (hd : d.WellFormed) {ts : Tokens}
    (hwords : texts ts = d.words ++ [endMark]) : (program.read ts).events = d.events := by
  have hok : (program.read ts).outcome = .ok d.program :=
    outcome_run.1 (outcome_parseProgram.2 ⟨d, hd, hwords, rfl⟩)
  suffices h : Reading.Tells [] (program.read ts) fun p log => p = d.program → log = d.events from
    h _ hok rfl
  -- The first three words, the definitions, and what begins with `BEGIN`.
  have hsplit : texts ts = Keyword.program.text :: d.name :: Keyword.is.text ::
      (d.definitions.flatMap Definition.words ++ Keyword.begin.text ::
        (Statement.wordsOf d.body ++ [Keyword.end_.text, d.name, endMark])) := by
    rw [hwords, Draft.words]
    simp
  obtain ⟨t₁, _, rfl, h₁, hsplit⟩ := List.map_eq_cons_iff.1 hsplit
  obtain ⟨t₂, _, rfl, h₂, hsplit⟩ := List.map_eq_cons_iff.1 hsplit
  obtain ⟨t₃, _, rfl, h₃, hsplit⟩ := List.map_eq_cons_iff.1 hsplit
  obtain ⟨used, rest, rfl, hused, hrest⟩ := List.map_eq_append_iff.1 hsplit
  have hstop : startsWith .begin rest = true :=
    startsWith_iff.2 (congrArg List.head? hrest)
  have hname : isIdentifier t₂.text = true := h₂ ▸ hd.named
  refine tells_behind (read_token_some _ (if_pos h₁) _) <| tells_behind (read_identifier hname _) <|
    tells_behind (read_token_some _ (if_pos h₃) _) <|
    tells_behind (read_definitions_of_words hused hd.admits hstop) ?_
  refine ((silent_token _ _).then_tells fun _ => (tells_block _ _).bind ?_) rest
  rintro body _ rfl
  refine (silent_token _ _).then_tells fun _ => (silent_closingName _ _ _).then_tells fun _ =>
    silent_endOfInput.then_tells fun _ => tells_emit_bind <| tells_checked_bind fun named hnamed =>
    tells_checked_bind fun equipped hequipped => tells_checked_bind fun complete hcomplete =>
    tells_pure fun hprogram => ?_
  obtain ⟨-, rfl⟩ := Program.swapBody_eq_ok_iff.1 hcomplete
  obtain rfl : body = d.body := Statement.block.inj (congrArg Program.body hprogram)
  have hsize : (Context.empty.extend d.definitions).size = d.definitions.length := by
    rw [Context.size_extend hd.admits]
    exact Nat.zero_add _
  simp [Draft.events, hsize, h₂]

end Rule

/-- **What a text tells.**  A text that holds a program is told of as the draft that it
    writes. -/
theorem exists_draft_told {source : String} {p : Program} (h : parse source = .ok p) :
    ∃ d : Draft, d.WellFormed ∧ texts (tokenize source) = d.words ++ [endMark] ∧ d.Denotes p ∧
      (readProgram source).events = d.events := by
  obtain ⟨d, hd, hwords, hp⟩ := outcome_parseProgram.1 h
  exact ⟨d, hd, hwords, hd.denotes_iff.2 hp, Rule.events_program_of_words hd hwords⟩

/-! ### The commands -/

/-- What the command that writes a program anew logs of a file that holds one. -/
theorem FileHolds.log_parse {readFile : String → Except FileError ByteArray} {file source : String}
    {p : Program} (h : FileHolds readFile file source p) (indent : Option Nat) (showTree : Bool) :
    ((Command.parse file indent showTree).run readFile).log =
      ownLine .info ("Parsing " ++ file) :: (readProgram source).events.map Event.logLine := by
  have hparse : (readProgram source).outcome = .ok p := h.parse
  obtain ⟨bytes, hread, hdecode, -⟩ := h
  simp only [Command.run, Command.readText, hread, hdecode, Command.runParse, hparse,
    Report.written]
  cases render (p.lines (indent.getD defaultIndent)) <;> rfl

/-- The lines that tell of a draft in a file. -/
def Draft.logLines (d : Draft) (file : String) : List String :=
  (ownLine .info ("Parsing " ++ file) :: d.events.map Event.logLine).map LogLine.text

/-- **Logging observes a reading and does not change it.**  Whenever the same command is asked
    for, exit code and output are the same, whatever is chosen to be logged and whether or not
    more log lines are asked for; these can always be asked for.  Where the file of the command
    that writes a program anew holds a program, and everything is logged, the log tells of the
    draft that the file writes: for each definition in the order in which they are written, of
    its statements in post-order and then of itself; of the statements of the body; and last of
    the program.  The statements it tells of are the branches, loops and calls of the program.
    Nothing else is logged where the command succeeds. -/
theorem log_observes_reading {readFile : String → Except FileError ByteArray} {command : Command}
    {args : List String} {verbose : Bool}
    (hargs : Request.ofArguments? args = some (.run verbose command)) :
    (∀ filter filter' args' verbose', Request.ofArguments? args' = some (.run verbose' command) →
      (runArguments filter readFile args).code = (runArguments filter' readFile args').code ∧
      (runArguments filter readFile args).output = (runArguments filter' readFile args').output) ∧
    (verbose = false → Request.ofArguments? ("-v" :: args) = some (.run true command)) ∧
    ∀ file indent showTree source p, command = .parse file indent showTree →
      FileHolds readFile file source p →
      ∃ d : Draft, d.WellFormed ∧ texts (tokenize source) = d.words ++ [endMark] ∧ d.Denotes p ∧
        (d.events.filterMap Event.kind?).Perm (p.nodes.map fun n => n.statement.kind) ∧
        d.logLines file <+: (runArguments (some (some .trace)) readFile args).errors ∧
        ((runArguments (some (some .trace)) readFile args).code = 0 →
          (runArguments (some (some .trace)) readFile args).errors = d.logLines file) := by
  refine ⟨?_, ?_, ?_⟩
  · intro filter filter' args' verbose' hargs'
    rw [runArguments_of_request hargs, runArguments_of_request hargs']
    exact Report.outcome_eq _ _ _
  · rintro rfl
    exact Request.ofArguments?_verbose hargs
  · rintro file indent showTree source p rfl hholds
    obtain ⟨d, hd, hwords, hp, hevents⟩ := exists_draft_told hholds.parse
    have hlog := Report.errors_outcome_trace ((Command.parse file indent showTree).run readFile)
    rw [hholds.log_parse, hevents] at hlog
    rw [runArguments_of_request hargs]
    exact ⟨d, hd, hwords, hp, hd.perm_nodes hp, hlog⟩

/-- The log of a program with a loop in a definition. -/
theorem log_observes_loop_in_definition :
    (runArguments none (fun _ => .ok
        "PROGRAM P IS INSTRUCTION A IS WHILE true DO B END WHILE move END A BEGIN A END P".toUTF8)
        ["parse", "p.bl"]).output =
      (runArguments (some (some .trace)) (fun _ => .ok
        "PROGRAM P IS INSTRUCTION A IS WHILE true DO B END WHILE move END A BEGIN A END P".toUTF8)
        ["-v", "parse", "p.bl"]).output ∧
    ∃ d : Draft, texts (tokenize
        "PROGRAM P IS INSTRUCTION A IS WHILE true DO B END WHILE move END A BEGIN A END P") =
          d.words ++ [endMark] ∧
      d.logLines "p.bl" = ["INFO bl: Parsing p.bl",
        "TRACE bl_lang::parser::statement: parsed statement kind=Call",
        "TRACE bl_lang::parser::statement: parsed statement kind=While",
        "TRACE bl_lang::parser::statement: parsed statement kind=Call",
        "DEBUG bl_lang::parser::program: parsed instruction instruction=A statements=2",
        "TRACE bl_lang::parser::statement: parsed statement kind=Call",
        "DEBUG bl_lang::parser::program: parsed program program=P instructions=1"] := by
  have hargs : Request.ofArguments? ["parse", "p.bl"] =
      some (.run false (.parse "p.bl" none false)) := by decide +kernel
  have hholds : FileHolds (fun _ => .ok
      "PROGRAM P IS INSTRUCTION A IS WHILE true DO B END WHILE move END A BEGIN A END P".toUTF8)
      "p.bl"
      "PROGRAM P IS INSTRUCTION A IS WHILE true DO B END WHILE move END A BEGIN A END P"
      ⟨"P", Context.empty.insert "A" (.block [.whileDo .always [.call "B"], .call "move"]),
        .block [.call "A"]⟩ := ⟨_, rfl, by decide +kernel, by decide +kernel⟩
  obtain ⟨hsame, hverbose, htold⟩ := log_observes_reading hargs
  refine ⟨(hsame none _ _ true (hverbose rfl)).2, ?_⟩
  obtain ⟨d, -, hwords, -, -, -, hlog⟩ := htold "p.bl" none false _ _ rfl hholds
  refine ⟨d, hwords, ?_⟩
  rw [← hlog (by decide +kernel)]
  decide +kernel

end BlockLanguage
