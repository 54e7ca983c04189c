import BlockLanguage.Proofs.Beneath
import BlockLanguage.Proofs.Editing

namespace BlockLanguage

/-!
# Parts and wholes

Branches, loops and calls are built from parts and split into parts.  Splitting undoes building,
and building undoes splitting wherever it accepts the parts: a tree with nested blocks, which no
checked operation has built, can be split but not built again.

* `Statement.PlainBlock` — the blocks that may become a part;
* `Inverts` — building and splitting as inverses of each other, as far as both succeed;
* `Inverts.of_make_iff` — it follows from what building gives;
* `Statement.assembly_inverts_splitting` — the four pairs of operations.
-/

/-- Building with `make` and splitting with `split` undo each other.  Building succeeds exactly on
    parts that fit, and splitting exactly on statements of the kind; what is built is split into
    its parts again; and what is split is built again from its parts exactly if it is whole. -/
structure Inverts {α : Type} (make : α → Except Violation Statement)
    (split : Statement → Except Violation α) (Fits : α → Prop) (kind : Kind)
    (Whole : Statement → Prop) : Prop where
  make_succeeds_iff : ∀ a, (∃ s, make a = .ok s) ↔ Fits a
  split_succeeds_iff : ∀ s, (∃ a, split s = .ok a) ↔ s.kind = kind
  split_made : ∀ a s, make a = .ok s → split s = .ok a
  make_split_succeeds_iff : ∀ s a, split s = .ok a → ((∃ t, make a = .ok t) ↔ Whole s)
  make_split : ∀ s a t, split s = .ok a → make a = .ok t → t = s

/-- Both undo each other if different statements have different parts, and building gives the
    whole statements with the parts. -/
theorem Inverts.of_make_iff {α : Type} {make : α → Except Violation Statement}
    {split : Statement → Except Violation α} {Fits : α → Prop} {kind : Kind}
    {Whole : Statement → Prop} (hmake : ∀ a s, make a = .ok s ↔ split s = .ok a ∧ Whole s)
    (hsplit : ∀ a s t, split s = .ok a → split t = .ok a → s = t)
    (hfits : ∀ a, (∃ s, split s = .ok a ∧ Whole s) ↔ Fits a)
    (hkind : ∀ s, (∃ a, split s = .ok a) ↔ s.kind = kind) :
    Inverts make split Fits kind Whole where
  make_succeeds_iff a := by
    rw [← hfits a]
    exact exists_congr (hmake a)
  split_succeeds_iff := hkind
  split_made a s h := ((hmake a s).1 h).1
  make_split_succeeds_iff s a h := by
    constructor
    · rintro ⟨t, ht⟩
      obtain ⟨htsplit, htwhole⟩ := (hmake a t).1 ht
      rwa [hsplit a s t h htsplit]
    · intro hwhole
      exact ⟨s, (hmake a s).2 ⟨h, hwhole⟩⟩
  make_split s a t h ht := hsplit a t s ((hmake a t).1 ht).1 h

namespace Statement

variable {s : Statement} {c : Condition}

/-- A block with no block beneath it, at any depth. -/
def PlainBlock (s : Statement) : Prop := s.isBlock = true ∧ ∀ t, s.Holds t → t.isBlock = false

theorem plainBlock_iff :
    s.PlainBlock ↔ ∃ body, s = .block body ∧ (Statement.block body).hasNestedBlock = false := by
  rw [PlainBlock, ← hasNestedBlock_eq_false_iff]
  cases s <;> simp [isBlock]

/-! ### Branches and loops -/

/-- Statements that are built from a condition and the body of a block, and hold what that block
    holds, can be built and split. -/
theorem inverts_of_body {make : Condition → Statement → Except Violation Statement}
    {split : Statement → Except Violation (Condition × Statement)} {kind : Kind}
    (build : Condition → List Statement → Statement)
    (hmake : ∀ c block s, make c block = .ok s ↔
      ∃ body, (block = .block body ∧ block.hasNestedBlock = false) ∧ s = build c body)
    (hsplit : ∀ s c block, split s = .ok (c, block) ↔
      ∃ body, s = build c body ∧ block = .block body)
    (hflat : ∀ c body, (build c body).hasNestedBlock = (Statement.block body).hasNestedBlock)
    (hkind : ∀ s, (∃ a, split s = .ok a) ↔ s.kind = kind) :
    Inverts (fun a : Condition × Statement => make a.1 a.2) split (fun a => a.2.PlainBlock) kind
      fun s => s.hasNestedBlock = false := by
  refine .of_make_iff ?_ ?_ ?_ hkind
  · rintro ⟨c, block⟩ s
    rw [hmake, hsplit]
    constructor
    · rintro ⟨body, ⟨rfl, hbody⟩, rfl⟩
      exact ⟨⟨body, rfl, rfl⟩, by rwa [hflat]⟩
    · rintro ⟨⟨body, rfl, rfl⟩, hwhole⟩
      rw [hflat] at hwhole
      exact ⟨body, ⟨rfl, hwhole⟩, rfl⟩
  · rintro ⟨c, block⟩ s t hs ht
    obtain ⟨body, rfl, rfl⟩ := (hsplit _ _ _).1 hs
    obtain ⟨_, rfl, hbody⟩ := (hsplit _ _ _).1 ht
    rw [Statement.block.inj hbody]
  · rintro ⟨c, block⟩
    rw [plainBlock_iff]
    constructor
    · rintro ⟨s, hs, hwhole⟩
      obtain ⟨body, rfl, rfl⟩ := (hsplit _ _ _).1 hs
      exact ⟨body, rfl, by rwa [hflat] at hwhole⟩
    · rintro ⟨body, rfl, hbody⟩
      exact ⟨build c body, (hsplit _ _ _).2 ⟨body, rfl, rfl⟩, by rwa [hflat]⟩

theorem inverts_ifThen : Inverts (fun a : Condition × Statement => makeIf a.1 a.2) splitIf
    (fun a => a.2.PlainBlock) .ifThen fun s => s.hasNestedBlock = false := by
  refine inverts_of_body ifThen (fun _ _ _ => makeIf_eq_ok_iff) (fun _ _ _ => splitIf_eq_ok_iff)
    (fun _ _ => rfl) fun s => ?_
  cases s <;> simp [splitIf, kind]

theorem inverts_whileDo : Inverts (fun a : Condition × Statement => makeWhile a.1 a.2) splitWhile
    (fun a => a.2.PlainBlock) .whileDo fun s => s.hasNestedBlock = false := by
  refine inverts_of_body whileDo (fun _ _ _ => makeWhile_eq_ok_iff)
    (fun _ _ _ => splitWhile_eq_ok_iff) (fun _ _ => rfl) fun s => ?_
  cases s <;> simp [splitWhile, kind]

/-- No block is nested in a branch with an alternative exactly if none is nested in the blocks of
    its bodies. -/
theorem hasNestedBlock_ifElse_eq_false_iff {thenBody elseBody : List Statement} :
    (ifElse c thenBody elseBody).hasNestedBlock = false ↔
      (Statement.block thenBody).hasNestedBlock = false ∧
        (Statement.block elseBody).hasNestedBlock = false := Bool.or_eq_false_iff

theorem inverts_ifElse :
    Inverts (fun a : Condition × Statement × Statement => makeIfElse a.1 a.2.1 a.2.2) splitIfElse
      (fun a => a.2.1.PlainBlock ∧ a.2.2.PlainBlock) .ifElse fun s => s.hasNestedBlock = false := by
  refine .of_make_iff ?_ ?_ ?_ ?_
  · rintro ⟨c, thenBlock, elseBlock⟩ s
    rw [makeIfElse_eq_ok_iff, splitIfElse_eq_ok_iff]
    constructor
    · rintro ⟨thenBody, elseBody, ⟨rfl, hthen⟩, ⟨rfl, helse⟩, rfl⟩
      exact ⟨⟨thenBody, elseBody, rfl, rfl, rfl⟩,
        hasNestedBlock_ifElse_eq_false_iff.2 ⟨hthen, helse⟩⟩
    · rintro ⟨⟨thenBody, elseBody, rfl, rfl, rfl⟩, hwhole⟩
      obtain ⟨hthen, helse⟩ := hasNestedBlock_ifElse_eq_false_iff.1 hwhole
      exact ⟨thenBody, elseBody, ⟨rfl, hthen⟩, ⟨rfl, helse⟩, rfl⟩
  · rintro ⟨c, thenBlock, elseBlock⟩ s t hs ht
    obtain ⟨thenBody, elseBody, rfl, rfl, rfl⟩ := splitIfElse_eq_ok_iff.1 hs
    obtain ⟨_, _, rfl, hthen, helse⟩ := splitIfElse_eq_ok_iff.1 ht
    rw [Statement.block.inj hthen, Statement.block.inj helse]
  · rintro ⟨c, thenBlock, elseBlock⟩
    rw [plainBlock_iff, plainBlock_iff]
    constructor
    · rintro ⟨s, hs, hwhole⟩
      obtain ⟨thenBody, elseBody, rfl, rfl, rfl⟩ := splitIfElse_eq_ok_iff.1 hs
      obtain ⟨hthen, helse⟩ := hasNestedBlock_ifElse_eq_false_iff.1 hwhole
      exact ⟨⟨thenBody, rfl, hthen⟩, ⟨elseBody, rfl, helse⟩⟩
    · rintro ⟨⟨thenBody, rfl, hthen⟩, ⟨elseBody, rfl, helse⟩⟩
      exact ⟨.ifElse c thenBody elseBody, rfl,
        hasNestedBlock_ifElse_eq_false_iff.2 ⟨hthen, helse⟩⟩
  · intro s
    cases s <;> simp [splitIfElse, kind]

/-! ### Calls -/

theorem inverts_call : Inverts makeCall splitCall (fun name => isIdentifier name = true) .call
    fun s => ∃ name, s = .call name ∧ isIdentifier name = true := by
  refine .of_make_iff ?_ ?_ ?_ ?_
  · intro name s
    rw [makeCall_eq_ok_iff, splitCall_eq_ok_iff]
    constructor
    · rintro ⟨hname, rfl⟩
      exact ⟨rfl, name, rfl, hname⟩
    · rintro ⟨rfl, other, hother, hname⟩
      obtain rfl := Statement.call.inj hother
      exact ⟨hname, rfl⟩
  · intro name s t hs ht
    rw [splitCall_eq_ok_iff.1 hs, splitCall_eq_ok_iff.1 ht]
  · intro name
    constructor
    · rintro ⟨s, hs, other, rfl, hname⟩
      obtain rfl := Statement.call.inj (splitCall_eq_ok_iff.1 hs)
      exact hname
    · intro hname
      exact ⟨.call name, rfl, name, rfl, hname⟩
  · intro s
    cases s <;> simp [splitCall, kind]

/-- **Building and splitting.**  Branches and loops are built exactly from blocks with no block
    beneath them, and calls from identifiers.  Every statement is split by the operation of its
    kind alone; splitting gives back what a statement was built from, in its order; and the parts
    that it gives are built together again exactly if no block is nested in the branch or loop, or
    the call names an identifier, and then to the same statement. -/
theorem assembly_inverts_splitting :
    Inverts (fun a : Condition × Statement => makeIf a.1 a.2) splitIf
      (fun a => a.2.PlainBlock) .ifThen (fun s => s.hasNestedBlock = false) ∧
    Inverts (fun a : Condition × Statement × Statement => makeIfElse a.1 a.2.1 a.2.2) splitIfElse
      (fun a => a.2.1.PlainBlock ∧ a.2.2.PlainBlock) .ifElse
      (fun s => s.hasNestedBlock = false) ∧
    Inverts (fun a : Condition × Statement => makeWhile a.1 a.2) splitWhile
      (fun a => a.2.PlainBlock) .whileDo (fun s => s.hasNestedBlock = false) ∧
    Inverts makeCall splitCall (fun name => isIdentifier name = true) .call
      (fun s => ∃ name, s = .call name ∧ isIdentifier name = true) :=
  ⟨inverts_ifThen, inverts_ifElse, inverts_whileDo, inverts_call⟩

/-- A branch is split into its parts in their order.  One with a block in its alternative is
    split too, and cannot be built again. -/
theorem assembly_inverts_splitting_of_branch :
    (makeIfElse .random (block [.call "go"]) empty = .ok (.ifElse .random [.call "go"] []) ∧
      splitIfElse (.ifElse .random [.call "go"] []) = .ok (.random, block [.call "go"], empty)) ∧
    (splitIfElse (.ifElse .random [.call "go"] [empty]) =
        .ok (.random, block [.call "go"], block [empty]) ∧
      ¬ ∃ s, makeIfElse .random (block [.call "go"]) (block [empty]) = .ok s) := by
  obtain ⟨-, hbranch, -, -⟩ := assembly_inverts_splitting
  have hmake : makeIfElse .random (block [.call "go"]) empty =
      .ok (.ifElse .random [.call "go"] []) := rfl
  have hsplit : splitIfElse (.ifElse .random [.call "go"] [empty]) =
      .ok (.random, block [.call "go"], block [empty]) := rfl
  refine ⟨⟨hmake, hbranch.split_made (_, _, _) _ hmake⟩, hsplit, fun hagain => ?_⟩
  have hwhole := (hbranch.make_split_succeeds_iff _ _ hsplit).1 hagain
  cases hwhole

end Statement

end BlockLanguage
