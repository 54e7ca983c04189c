import BlockLanguage.Grammar.Statement

namespace BlockLanguage

/-!
# What the checked operations accept

One equivalence for each checked operation on statements: on which arguments it
succeeds, and what it gives there.

* `map_eq_ok_iff`, `map_eq_error_iff` — answers whose value is changed;
* `Statement.insert_eq_ok_iff`, `Statement.remove_eq_ok_iff` — blocks as lists;
* `Statement.makeIf_eq_ok_iff` and its companions — building from parts;
* `Statement.splitIf_eq_ok_iff` and its companions — splitting into parts.
-/

/-- An answer whose value is changed succeeds with the changed value. -/
theorem map_eq_ok_iff {ε α β : Type} {x : Except ε α} {f : α → β} {b : β} :
    x.map f = .ok b ↔ ∃ a, x = .ok a ∧ f a = b := by
  cases x <;> simp [Except.map]

/-- It fails as the answer does. -/
theorem map_eq_error_iff {ε α β : Type} {x : Except ε α} {f : α → β} {e : ε} :
    x.map f = .error e ↔ x = .error e := by
  cases x <;> simp [Except.map]

namespace Statement

variable {s block item result : Statement} {c : Condition}

/-! ### Blocks as lists -/

theorem children_eq_ok_iff {cs : List Statement} : s.children = .ok cs ↔ s = .block cs := by
  cases s <;> simp [children]

/-- A statement is put into a block, at a position that is at most its length, if no
    block stands at the root of the statement or beneath it. -/
theorem insert_eq_ok_iff {position : Nat} :
    block.insert position item = .ok result ↔
      (item.isBlock = false ∧ item.hasNestedBlock = false) ∧
        ∃ cs, block = .block cs ∧ position ≤ cs.length ∧
          result = .block (cs.insertIdx position item) := by
  unfold insert
  by_cases hblock : item.isBlock = true
  · simp [hblock]
  · by_cases hnested : item.hasNestedBlock = true
    · simp [hblock, hnested]
    · cases block with
      | block cs =>
        by_cases hposition : position ≤ cs.length
        · simp [hblock, hnested, children, hposition, eq_comm]
        · simp [hblock, hnested, children, hposition]
      | _ => simp [hblock, hnested, children]

/-- A statement is taken out of a block from a position before its end. -/
theorem remove_eq_ok_iff {position : Nat} {rest : Statement} :
    block.remove position = .ok (item, rest) ↔
      ∃ cs, block = .block cs ∧ cs[position]? = some item ∧
        rest = .block (cs.eraseIdx position) := by
  cases block with
  | block cs =>
    simp only [remove, children, Statement.block.injEq, exists_eq_left']
    cases cs[position]? with
    | none => simp
    | some found => simp [eq_comm]
  | _ => simp [remove, children]

/-! ### Building from parts -/

/-- A part of a branch or a loop is a block that holds no other one. -/
theorem partBody_eq_ok_iff {body : List Statement} :
    block.partBody = .ok body ↔ block = .block body ∧ block.hasNestedBlock = false := by
  unfold partBody
  by_cases hnested : block.hasNestedBlock = true
  · simp [hnested]
  · simp [hnested, children_eq_ok_iff]

theorem makeIf_eq_ok_iff :
    makeIf c block = .ok result ↔
      ∃ body, (block = .block body ∧ block.hasNestedBlock = false) ∧ result = .ifThen c body := by
  simp only [makeIf, ← partBody_eq_ok_iff]
  cases block.partBody <;> simp [eq_comm]

theorem makeIfElse_eq_ok_iff {thenBlock elseBlock : Statement} :
    makeIfElse c thenBlock elseBlock = .ok result ↔
      ∃ thenBody elseBody,
        (thenBlock = .block thenBody ∧ thenBlock.hasNestedBlock = false) ∧
        (elseBlock = .block elseBody ∧ elseBlock.hasNestedBlock = false) ∧
          result = .ifElse c thenBody elseBody := by
  simp only [makeIfElse, ← partBody_eq_ok_iff]
  cases thenBlock.partBody with
  | error v => simp
  | ok thenBody => cases elseBlock.partBody <;> simp [eq_comm]

theorem makeWhile_eq_ok_iff :
    makeWhile c block = .ok result ↔
      ∃ body, (block = .block body ∧ block.hasNestedBlock = false) ∧ result = .whileDo c body := by
  simp only [makeWhile, ← partBody_eq_ok_iff]
  cases block.partBody <;> simp [eq_comm]

theorem makeCall_eq_ok_iff {name : String} :
    makeCall name = .ok result ↔ isIdentifier name = true ∧ result = .call name := by
  unfold makeCall
  by_cases hname : isIdentifier name = true
  · simp [hname, eq_comm]
  · simp [hname]

/-! ### Splitting into parts -/

theorem splitIf_eq_ok_iff :
    s.splitIf = .ok (c, block) ↔ ∃ body, s = .ifThen c body ∧ block = .block body := by
  constructor
  · intro h
    cases s with
    | ifThen d body =>
      cases h
      exact ⟨body, rfl, rfl⟩
    | _ => cases h
  · intro h
    obtain ⟨body, rfl, rfl⟩ := h
    rfl

theorem splitIfElse_eq_ok_iff {thenBlock elseBlock : Statement} :
    s.splitIfElse = .ok (c, thenBlock, elseBlock) ↔ ∃ thenBody elseBody,
      s = .ifElse c thenBody elseBody ∧ thenBlock = .block thenBody ∧
        elseBlock = .block elseBody := by
  constructor
  · intro h
    cases s with
    | ifElse d thenBody elseBody =>
      cases h
      exact ⟨thenBody, elseBody, rfl, rfl, rfl⟩
    | _ => cases h
  · intro h
    obtain ⟨thenBody, elseBody, rfl, rfl, rfl⟩ := h
    rfl

theorem splitWhile_eq_ok_iff :
    s.splitWhile = .ok (c, block) ↔ ∃ body, s = .whileDo c body ∧ block = .block body := by
  constructor
  · intro h
    cases s with
    | whileDo d body =>
      cases h
      exact ⟨body, rfl, rfl⟩
    | _ => cases h
  · intro h
    obtain ⟨body, rfl, rfl⟩ := h
    rfl

theorem splitCall_eq_ok_iff {name : String} : s.splitCall = .ok name ↔ s = .call name := by
  constructor
  · intro h
    cases s with
    | call other =>
      cases h
      rfl
    | _ => cases h
  · rintro rfl
    rfl

end Statement

end BlockLanguage
