import BlockLanguage.Proofs.Beneath
import BlockLanguage.Proofs.Editing
import Mathlib.Data.List.InsertIdx

namespace BlockLanguage

/-!
# Blocks edited in place

A statement is put into a block and taken out of it in place, by calls that check what they need
before they change anything.  What was put in can be taken out again, and what was taken out can
be put back, if it may stand in a block at all.

* `InPlace`, `Edit` — what is done to a value in place, which stays done upon a failure;
* `Statement.insertInPlace`, `Statement.removeInPlace` — the calls, with their answers and what
  they leave;
* `Statement.insertInPlace_eq`, `Statement.removeInPlace_eq` — a call in place answers as the
  checked operation does, and changes nothing when it fails;
* `Statement.EditingLaws`, `Statement.edits_obey_laws` — the laws of both calls.
-/

/-! ### Changes in place -/

/-- Steps that change a value in place and may fail.  The value stays as it was left by the steps
    before the failure. -/
abbrev InPlace (σ α : Type) := ExceptT Violation (StateM σ) α

namespace InPlace

variable {σ α β : Type} {m : InPlace σ α} {f : α → InPlace σ β} {s t : σ}

/-- The steps behind a success start from what it left. -/
theorem run_bind_ok {a : α} (h : m.run.run s = (.ok a, t)) :
    (m >>= f).run.run s = (f a).run.run t := by
  show (match m.run.run s with
    | (answer, t) => (ExceptT.bindCont f answer).run t) = _
  rw [h]
  rfl

/-- No step behind a failure is made. -/
theorem run_bind_error {v : Violation} (h : m.run.run s = (.error v, t)) :
    (m >>= f).run.run s = (.error v, t) := by
  show (match m.run.run s with
    | (answer, t) => (ExceptT.bindCont f answer).run t) = _
  rw [h]
  rfl

end InPlace

/-- Steps that change a statement in place. -/
abbrev Edit (α : Type) := InPlace Statement α

namespace Edit

/-- The statements of the block that is edited. -/
def children : Edit (List Statement) := do
  match (← get).children with
  | .ok cs => return cs
  | .error v => throw v

/-- Puts `item`, which may stand in a block, at `position`, before what stood there. -/
def place (position : Nat) (item : Statement) : Edit Unit := do
  let cs ← children
  unless position ≤ cs.length do throw (.insertPosition position cs.length)
  set (Statement.block (cs.insertIdx position item))

/-- Puts `item` at `position`, before what stood there, if it may stand in a block. -/
def insert (position : Nat) (item : Statement) : Edit Unit := do
  if item.isBlock then throw .itemIsBlock
  if item.hasNestedBlock then throw .itemHoldsBlock
  place position item

/-- Takes out what stands at `position`. -/
def remove (position : Nat) : Edit Statement := do
  let cs ← children
  match cs[position]? with
  | none => throw (.removePosition position cs.length)
  | some item =>
    set (Statement.block (cs.eraseIdx position))
    return item

end Edit

namespace Statement

variable {s t u item : Statement} {position : Nat}

/-- The answer to putting `item` into a statement in place, and what is then there. -/
def insertInPlace (s : Statement) (position : Nat) (item : Statement) :
    Except Violation Unit × Statement := (Edit.insert position item).run.run s

/-- The answer to taking a statement out in place, and what is then there. -/
def removeInPlace (s : Statement) (position : Nat) : Except Violation Statement × Statement :=
  (Edit.remove position).run.run s

/-! ### Calls in place and checked operations -/

/-- An operation that succeeds leaves its result in place of `s`, and one that fails leaves
    `s`. -/
def leaving {α : Type} (s : Statement) : Except Violation (α × Statement) →
    Except Violation α × Statement
  | .ok (a, t) => (.ok a, t)
  | .error v => (.error v, s)

theorem leaving_eq_ok_iff {α : Type} {answer : Except Violation (α × Statement)} {a : α} :
    s.leaving answer = (.ok a, t) ↔ answer = .ok (a, t) := by
  cases answer <;> simp [leaving, Prod.ext_iff]

theorem leaving_eq_error_iff {α : Type} {answer : Except Violation (α × Statement)}
    {v : Violation} : s.leaving answer = (.error v, t) ↔ answer = .error v ∧ t = s := by
  cases answer <;> simp [leaving, eq_comm]

/-- Putting in in place is the checked operation, and changes nothing when that one fails. -/
theorem insertInPlace_eq (s : Statement) (position : Nat) (item : Statement) :
    s.insertInPlace position item =
      s.leaving ((s.insert position item).map fun t => ((), t)) := by
  unfold insertInPlace insert
  rw [Edit.insert]
  cases item.isBlock with
  | true => rfl
  | false =>
    cases item.hasNestedBlock with
    | true => rfl
    | false =>
      show (Edit.place position item).run.run s = _
      cases s with
      | block cs =>
        have hchildren : Edit.children.run.run (block cs) = (.ok cs, block cs) := rfl
        rw [Edit.place, InPlace.run_bind_ok hchildren]
        by_cases h : position ≤ cs.length
        · rw [if_pos h]
          simp only [children, if_pos h]
          rfl
        · rw [if_neg h]
          simp only [children, if_neg h]
          rfl
      | _ => rfl

/-- Taking out in place is the checked operation, and changes nothing when that one fails. -/
theorem removeInPlace_eq (s : Statement) (position : Nat) :
    s.removeInPlace position = s.leaving (s.remove position) := by
  unfold removeInPlace remove
  cases s with
  | block cs =>
    have hchildren : Edit.children.run.run (block cs) = (.ok cs, block cs) := rfl
    rw [Edit.remove, InPlace.run_bind_ok hchildren]
    simp only [children]
    cases cs[position]? with
    | none => rfl
    | some found => rfl
  | _ => rfl

/-- What may be put into a block: no block, and nothing that holds one. -/
def Insertable (item : Statement) : Prop :=
  item.isBlock = false ∧ ∀ u, item.Holds u → u.isBlock = false

/-- A call puts a statement in exactly if it may be put into a block, the statement that it is
    put into is a block, and the position is at most the length. -/
theorem insertInPlace_eq_ok_iff :
    s.insertInPlace position item = (.ok (), t) ↔
      item.Insertable ∧ ∃ cs, s = block cs ∧ position ≤ cs.length ∧
        t = block (cs.insertIdx position item) := by
  rw [insertInPlace_eq, leaving_eq_ok_iff, map_eq_ok_iff, Insertable,
    ← hasNestedBlock_eq_false_iff, ← insert_eq_ok_iff]
  simp

/-- A call takes a statement out exactly if it stands at the position in a block. -/
theorem removeInPlace_eq_ok_iff :
    s.removeInPlace position = (.ok item, t) ↔
      ∃ cs, s = block cs ∧ cs[position]? = some item ∧ t = block (cs.eraseIdx position) := by
  rw [removeInPlace_eq, leaving_eq_ok_iff, remove_eq_ok_iff]

/-- What is put behind `before` stands between it and what stood behind it. -/
theorem insertIdx_length_append (before behind : List Statement) (item : Statement) :
    (before ++ behind).insertIdx before.length item = before ++ item :: behind := by
  induction before with
  | nil => rfl
  | cons s before ih =>
    rw [List.cons_append, List.length_cons, List.insertIdx_succ_cons, ih, List.cons_append]

/-- A block has as many statements as its length says, and nothing else has a length. -/
theorem length_eq_ok_iff {n : Nat} : s.length = .ok n ↔ ∃ cs, s = block cs ∧ cs.length = n := by
  cases s <;> simp [length, children]

/-- A call fails exactly if it does not succeed. -/
theorem exists_error_iff {ε α : Type} {r : Except ε α × Statement} :
    (∃ v, r.1 = .error v) ↔ ¬ ∃ a t, r = (.ok a, t) := by
  obtain ⟨answer, t⟩ := r
  cases answer <;> simp

/-! ### The laws of both calls -/

/-- What holds of putting statements into `s` and taking them out of it, one by one. -/
structure EditingLaws (s : Statement) : Prop where
  insert_fails_iff : ∀ position item, (∃ v, (s.insertInPlace position item).1 = .error v) ↔
    s.isBlock = false ∨ item.isBlock = true ∨ (∃ u, item.Holds u ∧ u.isBlock = true) ∨
      ∃ n, s.length = .ok n ∧ n < position
  remove_fails_iff : ∀ position, (∃ v, (s.removeInPlace position).1 = .error v) ↔
    s.isBlock = false ∨ ∃ n, s.length = .ok n ∧ n ≤ position
  insert_failed : ∀ position item v t, s.insertInPlace position item = (.error v, t) → t = s
  remove_failed : ∀ position v t, s.removeInPlace position = (.error v, t) → t = s
  inserted : ∀ position item t, s.insertInPlace position item = (.ok (), t) →
    ∃ before behind, s = block (before ++ behind) ∧ before.length = position ∧
      t = block (before ++ item :: behind)
  insert_undone : ∀ position item t, s.insertInPlace position item = (.ok (), t) →
    t.removeInPlace position = (.ok item, s)
  remove_undone : ∀ position n, s.length = .ok n → position < n →
    (∀ u, s.Holds u → u.isBlock = false) →
      ∃ item t, s.removeInPlace position = (.ok item, t) ∧
        t.insertInPlace position item = (.ok (), s)
  inserts_commute : ∀ i j a b t, i ≤ j →
    ((∃ u, s.insertInPlace i a = (.ok (), u) ∧ u.insertInPlace (j + 1) b = (.ok (), t)) ↔
      ∃ u, s.insertInPlace j b = (.ok (), u) ∧ u.insertInPlace i a = (.ok (), t))

/-- A statement has no length with a property if it is no block, or if its length does not have
    it. -/
theorem not_exists_length_iff {P : Nat → Prop} :
    (¬ ∃ n, s.length = .ok n ∧ P n) ↔ s.isBlock = false ∨ ∃ n, s.length = .ok n ∧ ¬ P n := by
  cases s <;> simp [length, children, isBlock]

theorem not_insertable_iff :
    ¬ item.Insertable ↔ item.isBlock = true ∨ ∃ u, item.Holds u ∧ u.isBlock = true := by
  rw [Insertable, Classical.not_and_iff_not_or_not, Bool.not_eq_false]
  simp

/-- Putting in fails exactly if one of four conditions does not hold. -/
theorem insertInPlace_fails_iff :
    (∃ v, (s.insertInPlace position item).1 = .error v) ↔
      s.isBlock = false ∨ item.isBlock = true ∨ (∃ u, item.Holds u ∧ u.isBlock = true) ∨
        ∃ n, s.length = .ok n ∧ n < position := by
  have hok : (∃ a t, s.insertInPlace position item = (.ok a, t)) ↔
      item.Insertable ∧ ∃ n, s.length = .ok n ∧ position ≤ n := by
    constructor
    · rintro ⟨_, t, h⟩
      obtain ⟨hitem, cs, rfl, hposition, -⟩ := insertInPlace_eq_ok_iff.1 h
      exact ⟨hitem, _, rfl, hposition⟩
    · rintro ⟨hitem, n, hn, hposition⟩
      obtain ⟨cs, rfl, rfl⟩ := length_eq_ok_iff.1 hn
      exact ⟨(), _, insertInPlace_eq_ok_iff.2 ⟨hitem, cs, rfl, hposition, rfl⟩⟩
  rw [exists_error_iff, hok, Classical.not_and_iff_not_or_not, not_insertable_iff,
    not_exists_length_iff, or_left_comm, or_assoc]
  simp only [Nat.not_le]

/-- Taking out fails exactly if the statement is no block, or its length is not beyond the
    position. -/
theorem removeInPlace_fails_iff :
    (∃ v, (s.removeInPlace position).1 = .error v) ↔
      s.isBlock = false ∨ ∃ n, s.length = .ok n ∧ n ≤ position := by
  have hok : (∃ a t, s.removeInPlace position = (.ok a, t)) ↔
      ∃ n, s.length = .ok n ∧ position < n := by
    constructor
    · rintro ⟨item, t, h⟩
      obtain ⟨cs, rfl, hfound, -⟩ := removeInPlace_eq_ok_iff.1 h
      obtain ⟨hposition, -⟩ := List.getElem?_eq_some_iff.1 hfound
      exact ⟨_, rfl, hposition⟩
    · rintro ⟨n, hn, hposition⟩
      obtain ⟨cs, rfl, rfl⟩ := length_eq_ok_iff.1 hn
      exact ⟨_, _, removeInPlace_eq_ok_iff.2 ⟨cs, rfl, List.getElem?_eq_getElem hposition, rfl⟩⟩
  rw [exists_error_iff, hok, not_exists_length_iff]
  simp only [Nat.not_lt]

/-- What has been taken out of a block without nested ones can be put back. -/
theorem exists_removeInPlace {cs : List Statement} (h : position < cs.length)
    (hflat : ∀ u, (block cs).Holds u → u.isBlock = false) :
    ∃ item t, (block cs).removeInPlace position = (.ok item, t) ∧
      t.insertInPlace position item = (.ok (), block cs) := by
  have hpart : cs[position] ∈ (block cs).parts := List.getElem_mem h
  have hinsertable : cs[position].Insertable :=
    ⟨hflat _ (.part hpart), fun u hu => hflat u (.within hpart hu)⟩
  have hlength : position ≤ (cs.eraseIdx position).length := by
    rw [List.length_eraseIdx_of_lt h]
    omega
  refine ⟨cs[position], _, removeInPlace_eq_ok_iff.2 ⟨cs, rfl, List.getElem?_eq_getElem h, rfl⟩, ?_⟩
  refine insertInPlace_eq_ok_iff.2 ⟨hinsertable, _, rfl, hlength, ?_⟩
  rw [List.insertIdx_eraseIdx_getElem h]

/-- Two statements put in one behind the other may be put in in either order. -/
theorem insertInPlace_comm {i j : Nat} {a b : Statement} (h : i ≤ j) :
    (∃ u, s.insertInPlace i a = (.ok (), u) ∧ u.insertInPlace (j + 1) b = (.ok (), t)) ↔
      ∃ u, s.insertInPlace j b = (.ok (), u) ∧ u.insertInPlace i a = (.ok (), t) := by
  simp only [insertInPlace_eq_ok_iff]
  constructor
  · rintro ⟨u, ⟨ha, cs, rfl, hi, rfl⟩, hb, ds, hds, hj, rfl⟩
    obtain rfl := block.inj hds
    rw [List.length_insertIdx_of_le_length hi] at hj
    have hj' : j ≤ cs.length := Nat.le_of_succ_le_succ hj
    refine ⟨_, ⟨hb, cs, rfl, hj', rfl⟩, ha, _, rfl, ?_, ?_⟩
    · rw [List.length_insertIdx_of_le_length hj']
      omega
    · rw [List.insertIdx_comm a b h hj']
  · rintro ⟨u, ⟨hb, cs, rfl, hj, rfl⟩, ha, ds, hds, hi, rfl⟩
    obtain rfl := block.inj hds
    have hi' : i ≤ cs.length := Nat.le_trans h hj
    refine ⟨_, ⟨ha, cs, rfl, hi', rfl⟩, hb, _, rfl, ?_, ?_⟩
    · rw [List.length_insertIdx_of_le_length hi']
      omega
    · rw [List.insertIdx_comm a b h hj]

/-- **Editing in place.**  Both calls fail exactly where one of their conditions does not hold,
    and then change nothing.  A statement put in stands at its position, between the others in
    their order, and can be taken out again; one taken out of a block without nested ones can be
    put back; and statements put in one behind the other may be put in in either order. -/
theorem edits_obey_laws (s : Statement) : s.EditingLaws where
  insert_fails_iff _ _ := insertInPlace_fails_iff
  remove_fails_iff _ := removeInPlace_fails_iff
  insert_failed position item v t h := by
    rw [insertInPlace_eq, leaving_eq_error_iff] at h
    exact h.2
  remove_failed position v t h := by
    rw [removeInPlace_eq, leaving_eq_error_iff] at h
    exact h.2
  inserted position item t h := by
    obtain ⟨-, cs, rfl, hposition, rfl⟩ := insertInPlace_eq_ok_iff.1 h
    have hlength : (cs.take position).length = position := List.length_take_of_le hposition
    refine ⟨cs.take position, cs.drop position, ?_, hlength, ?_⟩
    · rw [List.take_append_drop]
    · have hinsert := insertIdx_length_append (cs.take position) (cs.drop position) item
      rw [List.take_append_drop, hlength] at hinsert
      rw [hinsert]
  insert_undone position item t h := by
    obtain ⟨-, cs, rfl, hposition, rfl⟩ := insertInPlace_eq_ok_iff.1 h
    refine removeInPlace_eq_ok_iff.2 ⟨_, rfl, ?_, ?_⟩
    · rw [List.getElem?_insertIdx_self, if_pos hposition]
    · rw [List.eraseIdx_insertIdx_self]
  remove_undone position n hn h hflat := by
    obtain ⟨cs, rfl, rfl⟩ := length_eq_ok_iff.1 hn
    exact exists_removeInPlace h hflat
  inserts_commute i j a b t h := insertInPlace_comm h

/-- The end of a block is a place to put a statement in, and none to take one out; a block may be
    put nowhere. -/
theorem edits_obey_laws_at_end :
    ((block [.call "go", .whileDo .random []]).insertInPlace 2 (.call "in") =
        (.ok (), block [.call "go", .whileDo .random [], .call "in"]) ∧
      (block [.call "go", .whileDo .random [], .call "in"]).removeInPlace 2 =
        (.ok (.call "in"), block [.call "go", .whileDo .random []])) ∧
    (∃ v, ((block [.call "go", .whileDo .random []]).removeInPlace 2).1 = .error v) ∧
    (∃ v, ((block [.call "go", .whileDo .random []]).insertInPlace 2 empty).1 = .error v) := by
  have hlaws := edits_obey_laws (block [.call "go", .whileDo .random []])
  have hinsert : (block [.call "go", .whileDo .random []]).insertInPlace 2 (.call "in") =
      (.ok (), block [.call "go", .whileDo .random [], .call "in"]) := rfl
  refine ⟨⟨hinsert, hlaws.insert_undone _ _ _ hinsert⟩, ?_, ?_⟩
  · exact (hlaws.remove_fails_iff 2).2 (.inr ⟨2, rfl, Nat.le_refl 2⟩)
  · exact (hlaws.insert_fails_iff 2 empty).2 (.inr (.inl rfl))

end Statement

end BlockLanguage
