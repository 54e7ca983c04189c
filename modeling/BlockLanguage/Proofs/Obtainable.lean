import BlockLanguage.Proofs.Acceptance
import BlockLanguage.Proofs.Beneath
import BlockLanguage.Proofs.Editing

namespace BlockLanguage

/-!
# What the checked operations build

The checked operations on statements, called one after the other, give the proper
trees and no others: those with no block beneath the root that call identifiers only.
What has been read is among them.

* `Operation` — the calls, with their arguments and results;
* `Run`, `Obtainable` — calls in a row, and the statements that they give;
* `Statement.Proper` — proper trees, with one equivalence for each shape;
* `Run.proper` — a run gives proper trees only, since each call does;
* `Statement.Proper.obtainable` — each proper tree is given by some run;
* `operations_build_proper_statements` — what the checked operations build.
-/

/-- A call of a checked operation on statements. -/
inductive Operation
  | empty
  | makeCall (name : String)
  | insert (block : Statement) (position : Nat) (item : Statement)
  | remove (block : Statement) (position : Nat)
  | makeIf (condition : Condition) (block : Statement)
  | makeIfElse (condition : Condition) (thenBlock elseBlock : Statement)
  | makeWhile (condition : Condition) (block : Statement)
  | splitIf (s : Statement)
  | splitIfElse (s : Statement)
  | splitWhile (s : Statement)
  | splitCall (s : Statement)

namespace Operation

/-- The statements that a call works on. -/
def arguments : Operation → List Statement
  | .empty => []
  | .makeCall _ => []
  | .insert block _ item => [block, item]
  | .remove block _ => [block]
  | .makeIf _ block => [block]
  | .makeIfElse _ thenBlock elseBlock => [thenBlock, elseBlock]
  | .makeWhile _ block => [block]
  | .splitIf s => [s]
  | .splitIfElse s => [s]
  | .splitWhile s => [s]
  | .splitCall s => [s]

/-- The statements that a call gives.  A block that is edited in place counts as one. -/
def results : Operation → Except Violation (List Statement)
  | .empty => .ok [Statement.empty]
  | .makeCall name => (Statement.makeCall name).map fun s => [s]
  | .insert block position item => (block.insert position item).map fun s => [s]
  | .remove block position => (block.remove position).map fun r => [r.1, r.2]
  | .makeIf c block => (Statement.makeIf c block).map fun s => [s]
  | .makeIfElse c thenBlock elseBlock =>
    (Statement.makeIfElse c thenBlock elseBlock).map fun s => [s]
  | .makeWhile c block => (Statement.makeWhile c block).map fun s => [s]
  | .splitIf s => s.splitIf.map fun r => [r.2]
  | .splitIfElse s => s.splitIfElse.map fun r => [r.2.1, r.2.2]
  | .splitWhile s => s.splitWhile.map fun r => [r.2]
  | .splitCall s => s.splitCall.map fun _ => []

end Operation

/-- Calls in a row, none of them refused, and the statements that they give.  Each call
    works on what the calls before it gave. -/
inductive Run : List Operation → List Statement → Prop
  | nil : Run [] []
  | call {ops : List Operation} {pool results : List Statement} {op : Operation}
      (h : Run ops pool) (hargs : ∀ s ∈ op.arguments, s ∈ pool) (hok : op.results = .ok results) :
      Run (ops ++ [op]) (pool ++ results)

/-- Some calls in a row give the statement. -/
def Obtainable (s : Statement) : Prop := ∃ ops pool, Run ops pool ∧ s ∈ pool

/-! ### Proper trees -/

namespace Statement

variable {s : Statement} {c : Condition} {body thenBody elseBody : List Statement}

/-- A tree that holds no block beneath its root and calls identifiers only. -/
structure Proper (s : Statement) : Prop where
  flat : s.hasNestedBlock = false
  named : ∀ name ∈ s.calls, isIdentifier name = true

theorem proper_call {name : String} : (call name).Proper ↔ isIdentifier name = true := by
  constructor
  · intro h
    exact h.named name (by simp [calls])
  · intro h
    exact ⟨rfl, by simpa [calls] using h⟩

/-- A branch is as proper as the block of its body. -/
theorem proper_ifThen : (ifThen c body).Proper ↔ (block body).Proper :=
  ⟨fun h => ⟨h.flat, h.named⟩, fun h => ⟨h.flat, h.named⟩⟩

/-- A loop is as proper as the block of its body. -/
theorem proper_whileDo : (whileDo c body).Proper ↔ (block body).Proper :=
  ⟨fun h => ⟨h.flat, h.named⟩, fun h => ⟨h.flat, h.named⟩⟩

/-- A branch with an alternative is as proper as the blocks of both its bodies. -/
theorem proper_ifElse :
    (ifElse c thenBody elseBody).Proper ↔ (block thenBody).Proper ∧ (block elseBody).Proper := by
  constructor
  · intro h
    obtain ⟨hflat, hnamed⟩ := h
    rw [hasNestedBlock, Bool.or_eq_false_iff] at hflat
    rw [calls, List.forall_mem_append] at hnamed
    exact ⟨⟨hflat.1, hnamed.1⟩, ⟨hflat.2, hnamed.2⟩⟩
  · intro h
    obtain ⟨hthen, helse⟩ := h
    refine ⟨?_, ?_⟩
    · rw [hasNestedBlock, Bool.or_eq_false_iff]
      exact ⟨hthen.flat, helse.flat⟩
    · rw [calls, List.forall_mem_append]
      exact ⟨hthen.named, helse.named⟩

/-- A block is proper if its statements are and none of them is a block. -/
theorem proper_block : (block body).Proper ↔ ∀ t ∈ body, t.isBlock = false ∧ t.Proper := by
  have hcalls : (∀ name ∈ callsOf body, isIdentifier name = true) ↔
      ∀ t ∈ body, ∀ name ∈ t.calls, isIdentifier name = true := by
    induction body with
    | nil => simp [callsOf]
    | cons t ts ih => rw [callsOf, List.forall_mem_append, ih, List.forall_mem_cons]
  constructor
  · intro h t ht
    obtain ⟨hroot, hflat⟩ := hasNestedBlock_eq_false_iff_parts.1 h.flat t ht
    exact ⟨hroot, hflat, hcalls.1 h.named t ht⟩
  · intro h
    refine ⟨hasNestedBlock_eq_false_iff_parts.2 fun t ht => ?_, hcalls.2 fun t ht => ?_⟩
    · exact ⟨(h t ht).1, (h t ht).2.flat⟩
    · exact (h t ht).2.named

/-- A readable statement is proper. -/
theorem Readable.proper {budget : Nat} (h : s.Readable budget) : s.Proper := by
  have hflat := h.flat
  rw [hasBlock_eq, Bool.or_eq_false_iff] at hflat
  exact ⟨hflat.2, h.named⟩

/-- The block of readable statements is proper. -/
theorem AllReadable.proper {budget : Nat} (h : AllReadable budget body) : (block body).Proper :=
  ⟨h.flat, h.named⟩

end Statement

/-! ### What a run gives -/

/-- What holds of a pair holds of both. -/
theorem forall_mem_pair {P : Statement → Prop} {s t : Statement} :
    (∀ u ∈ [s, t], P u) ↔ P s ∧ P t := by
  rw [List.forall_mem_cons, List.forall_mem_singleton]

/-- **One call.**  From proper trees a call gives proper trees. -/
theorem Operation.proper_of_ok {op : Operation} {results : List Statement}
    (hargs : ∀ s ∈ op.arguments, s.Proper) (hok : op.results = .ok results) :
    ∀ s ∈ results, s.Proper := by
  cases op with
  | empty =>
    obtain rfl := Except.ok.inj hok
    exact List.forall_mem_singleton.2 (Statement.proper_block.2 fun _ h => nomatch h)
  | makeCall name =>
    obtain ⟨s, hs, rfl⟩ := map_eq_ok_iff.1 hok
    obtain ⟨hname, rfl⟩ := Statement.makeCall_eq_ok_iff.1 hs
    exact List.forall_mem_singleton.2 (Statement.proper_call.2 hname)
  | insert block position item =>
    obtain ⟨s, hs, rfl⟩ := map_eq_ok_iff.1 hok
    obtain ⟨⟨hroot, -⟩, cs, rfl, hposition, rfl⟩ := Statement.insert_eq_ok_iff.1 hs
    obtain ⟨hblock, hitem⟩ := forall_mem_pair.1 hargs
    rw [List.forall_mem_singleton, Statement.proper_block]
    intro t ht
    rcases (List.mem_insertIdx hposition).1 ht with rfl | ht
    · exact ⟨hroot, hitem⟩
    · exact Statement.proper_block.1 hblock t ht
  | remove block position =>
    obtain ⟨⟨item, rest⟩, hr, rfl⟩ := map_eq_ok_iff.1 hok
    obtain ⟨cs, rfl, hfound, rfl⟩ := Statement.remove_eq_ok_iff.1 hr
    have hblock := Statement.proper_block.1 (List.forall_mem_singleton.1 hargs)
    refine forall_mem_pair.2 ⟨(hblock item (List.mem_of_getElem? hfound)).2, ?_⟩
    exact Statement.proper_block.2 fun t ht => hblock t (List.mem_of_mem_eraseIdx ht)
  | makeIf c block =>
    obtain ⟨s, hs, rfl⟩ := map_eq_ok_iff.1 hok
    obtain ⟨body, ⟨rfl, -⟩, rfl⟩ := Statement.makeIf_eq_ok_iff.1 hs
    rw [arguments, List.forall_mem_singleton] at hargs
    exact List.forall_mem_singleton.2 (Statement.proper_ifThen.2 hargs)
  | makeIfElse c thenBlock elseBlock =>
    obtain ⟨s, hs, rfl⟩ := map_eq_ok_iff.1 hok
    obtain ⟨thenBody, elseBody, ⟨rfl, -⟩, ⟨rfl, -⟩, rfl⟩ := Statement.makeIfElse_eq_ok_iff.1 hs
    rw [arguments, forall_mem_pair] at hargs
    exact List.forall_mem_singleton.2 (Statement.proper_ifElse.2 hargs)
  | makeWhile c block =>
    obtain ⟨s, hs, rfl⟩ := map_eq_ok_iff.1 hok
    obtain ⟨body, ⟨rfl, -⟩, rfl⟩ := Statement.makeWhile_eq_ok_iff.1 hs
    rw [arguments, List.forall_mem_singleton] at hargs
    exact List.forall_mem_singleton.2 (Statement.proper_whileDo.2 hargs)
  | splitIf s =>
    obtain ⟨⟨c, block⟩, hr, rfl⟩ := map_eq_ok_iff.1 hok
    obtain ⟨body, rfl, rfl⟩ := Statement.splitIf_eq_ok_iff.1 hr
    rw [arguments, List.forall_mem_singleton] at hargs
    exact List.forall_mem_singleton.2 (Statement.proper_ifThen.1 hargs)
  | splitIfElse s =>
    obtain ⟨⟨c, thenBlock, elseBlock⟩, hr, rfl⟩ := map_eq_ok_iff.1 hok
    obtain ⟨thenBody, elseBody, rfl, rfl, rfl⟩ := Statement.splitIfElse_eq_ok_iff.1 hr
    rw [arguments, List.forall_mem_singleton] at hargs
    exact forall_mem_pair.2 (Statement.proper_ifElse.1 hargs)
  | splitWhile s =>
    obtain ⟨⟨c, block⟩, hr, rfl⟩ := map_eq_ok_iff.1 hok
    obtain ⟨body, rfl, rfl⟩ := Statement.splitWhile_eq_ok_iff.1 hr
    rw [arguments, List.forall_mem_singleton] at hargs
    exact List.forall_mem_singleton.2 (Statement.proper_whileDo.1 hargs)
  | splitCall s =>
    obtain ⟨name, -, rfl⟩ := map_eq_ok_iff.1 hok
    nofun

/-- **Calls in a row.**  They give proper trees only. -/
theorem Run.proper {ops : List Operation} {pool : List Statement} (h : Run ops pool) :
    ∀ s ∈ pool, s.Proper := by
  induction h with
  | nil => nofun
  | call _ hargs hok ih =>
    exact List.forall_mem_append.2 ⟨ih, Operation.proper_of_ok (fun s hs => ih s (hargs s hs)) hok⟩

theorem Obtainable.proper {s : Statement} (h : Obtainable s) : s.Proper := by
  obtain ⟨ops, pool, hrun, hs⟩ := h
  exact hrun.proper s hs

/-! ### Runs for what is proper -/

/-- One run can follow another. -/
theorem Run.append {ops ops' : List Operation} {pool pool' : List Statement} (h : Run ops pool)
    (h' : Run ops' pool') : Run (ops ++ ops') (pool ++ pool') := by
  induction h' with
  | nil => simpa using h
  | call _ hargs hok ih =>
    rw [← List.append_assoc, ← List.append_assoc]
    exact ih.call (fun s hs => List.mem_append_right _ (hargs s hs)) hok

/-- Statements that can be obtained can be obtained by one run. -/
theorem exists_run {args : List Statement} (h : ∀ s ∈ args, Obtainable s) :
    ∃ ops pool, Run ops pool ∧ ∀ s ∈ args, s ∈ pool := by
  induction args with
  | nil => exact ⟨[], [], .nil, nofun⟩
  | cons s args ih =>
    obtain ⟨hs, hargs⟩ := List.forall_mem_cons.1 h
    obtain ⟨ops, pool, hrun, hmem⟩ := hs
    obtain ⟨ops', pool', hrun', hmem'⟩ := ih hargs
    refine ⟨_, _, hrun.append hrun', List.forall_mem_cons.2 ⟨?_, fun t ht => ?_⟩⟩
    · exact List.mem_append_left _ hmem
    · exact List.mem_append_right _ (hmem' t ht)

/-- What a call with a single result gives can be obtained if its arguments can. -/
theorem Obtainable.call (op : Operation) {answer : Except Violation Statement} {s : Statement}
    (hop : op.results = answer.map fun s => [s]) (hargs : ∀ t ∈ op.arguments, Obtainable t)
    (hok : answer = .ok s) : Obtainable s := by
  obtain ⟨ops, pool, hrun, hmem⟩ := exists_run hargs
  have hresults : op.results = .ok [s] := by
    rw [hop, hok]
    rfl
  exact ⟨_, _, hrun.call hmem hresults, List.mem_append_right _ (List.mem_singleton_self s)⟩

/-- A block can be obtained if its statements can, none of them a block or holding
    one. -/
theorem obtainable_block {body : List Statement}
    (h : ∀ t ∈ body, (t.isBlock = false ∧ t.hasNestedBlock = false) ∧ Obtainable t) :
    Obtainable (.block body) := by
  induction body with
  | nil =>
    have hempty : Operation.empty.results = (Except.ok Statement.empty).map fun s => [s] := rfl
    exact .call .empty hempty nofun rfl
  | cons t body ih =>
    -- The first statement is put in front of the others.
    obtain ⟨⟨hitem, ht⟩, hbody⟩ := List.forall_mem_cons.1 h
    refine .call (.insert (.block body) 0 t) rfl (forall_mem_pair.2 ⟨ih hbody, ht⟩) ?_
    exact Statement.insert_eq_ok_iff.2 ⟨hitem, body, rfl, Nat.zero_le _, rfl⟩

/-- **Completeness.**  Each proper tree is built by some run, part by part. -/
theorem Statement.Proper.obtainable {s : Statement} (h : s.Proper) : Obtainable s := by
  induction s using Statement.parts_induction with
  | h s ih =>
    -- Any list of parts stands in a block that can be obtained.
    have hblock : ∀ body : List Statement, (∀ t ∈ body, t ∈ s.parts) → (block body).Proper →
        Obtainable (.block body) := by
      intro body hparts hbody
      refine obtainable_block fun t ht => ?_
      obtain ⟨hroot, hproper⟩ := proper_block.1 hbody t ht
      exact ⟨⟨hroot, hproper.flat⟩, ih t (hparts t ht) hproper⟩
    cases s with
    | block body => exact hblock body (fun _ ht => ht) h
    | ifThen c body =>
      rw [proper_ifThen] at h
      refine .call (.makeIf c (.block body)) rfl ?_ (makeIf_eq_ok_iff.2 ⟨body, ⟨rfl, h.flat⟩, rfl⟩)
      exact List.forall_mem_singleton.2 (hblock body (fun _ ht => ht) h)
    | ifElse c thenBody elseBody =>
      rw [proper_ifElse] at h
      obtain ⟨hthen, helse⟩ := h
      refine .call (.makeIfElse c (.block thenBody) (.block elseBody)) rfl ?_
        (makeIfElse_eq_ok_iff.2
          ⟨thenBody, elseBody, ⟨rfl, hthen.flat⟩, ⟨rfl, helse.flat⟩, rfl⟩)
      exact forall_mem_pair.2 ⟨hblock thenBody (fun _ ht => List.mem_append_left _ ht) hthen,
        hblock elseBody (fun _ ht => List.mem_append_right _ ht) helse⟩
    | whileDo c body =>
      rw [proper_whileDo] at h
      refine .call (.makeWhile c (.block body)) rfl ?_
        (makeWhile_eq_ok_iff.2 ⟨body, ⟨rfl, h.flat⟩, rfl⟩)
      exact List.forall_mem_singleton.2 (hblock body (fun _ ht => ht) h)
    | call name =>
      exact .call (.makeCall name) rfl nofun (makeCall_eq_ok_iff.2 ⟨proper_call.1 h, rfl⟩)

/-! ### What has been read -/

/-- A statement that has been read is proper. -/
theorem proper_of_parseStatement {ts : Tokens} {s : Statement}
    (h : (parseStatement ts).outcome = .ok s) : s.Proper :=
  (Rule.readable_of_ok (Rule.outcome_run.1 h)).proper

/-- A block that has been read is proper. -/
theorem proper_of_parseBlock {ts : Tokens} {s : Statement}
    (h : (parseBlock ts).outcome = .ok s) : s.Proper := by
  obtain ⟨body, hread, rfl⟩ := Rule.outcome_map.1 (Rule.outcome_run.1 h)
  exact (Rule.allReadable_of_ok hread).proper

/-- A text of statements is read as a proper block. -/
theorem proper_of_parseStatements {source : String} {s : Statement}
    (h : parseStatements source = .ok s) : s.Proper := by
  obtain ⟨body, hbody, -, rfl⟩ := outcome_readStatements.1 h
  exact hbody.proper

/-- **What the checked operations build.**  Calls in a row give a statement exactly if
    no block stands beneath its root and it calls identifiers only.  So every statement
    that has been read, every block and every text of statements, can be built. -/
theorem operations_build_proper_statements :
    (∀ s, Obtainable s ↔
      (∀ t, s.Holds t → t.isBlock = false) ∧ ∀ name ∈ s.calls, isIdentifier name = true) ∧
    (∀ ts s, (parseStatement ts).outcome = .ok s → Obtainable s) ∧
    (∀ ts s, (parseBlock ts).outcome = .ok s → Obtainable s) ∧
    ∀ source s, parseStatements source = .ok s → Obtainable s := by
  refine ⟨fun s => ⟨fun h => ?_, fun h => ?_⟩, ?_, ?_, ?_⟩
  · exact ⟨Statement.hasNestedBlock_eq_false_iff.1 h.proper.flat, h.proper.named⟩
  · exact Statement.Proper.obtainable ⟨Statement.hasNestedBlock_eq_false_iff.2 h.1, h.2⟩
  · exact fun ts s h => (proper_of_parseStatement h).obtainable
  · exact fun ts s h => (proper_of_parseBlock h).obtainable
  · exact fun source s h => (proper_of_parseStatements h).obtainable

/-- A branch with an empty alternative can be built since it can be read, and none with
    a block in its alternative can. -/
theorem operations_build_branch_read :
    ((parseStatement (tokenize "IF random THEN go ELSE END IF")).outcome =
        .ok (.ifElse .random [.call "go"] []) ∧
      (parseBlock (tokenize "go END")).outcome = .ok (.block [.call "go"]) ∧
      parseStatements "go" = .ok (.block [.call "go"])) ∧
    Obtainable (.ifElse .random [.call "go"] []) ∧ Obtainable (.block [.call "go"]) ∧
      ¬ Obtainable (.ifElse .random [.call "go"] [.block []]) := by
  have hbranch : (parseStatement (tokenize "IF random THEN go ELSE END IF")).outcome =
      .ok (.ifElse .random [.call "go"] []) := by decide +kernel
  have hblock : (parseBlock (tokenize "go END")).outcome = .ok (.block [.call "go"]) := by
    decide +kernel
  have htext : parseStatements "go" = .ok (.block [.call "go"]) := by decide +kernel
  refine ⟨⟨hbranch, hblock, htext⟩, operations_build_proper_statements.2.1 _ _ hbranch,
    operations_build_proper_statements.2.2.2 _ _ htext, fun h => ?_⟩
  -- The empty block stands beneath the root.
  have hpart : Statement.block [] ∈
      (Statement.ifElse .random [.call "go"] [.block []]).parts := by simp [Statement.parts]
  have hno := ((operations_build_proper_statements.1 _).1 h).1 _ (.part hpart)
  cases hno

end BlockLanguage
