import BlockLanguage.Program

namespace BlockLanguage

/-!
# Well-formed programs

What the checked exchanges of a program's parts ask for, as one predicate each.

* `Program.Allowed` — the entries that a context may hold;
* `Context.Allowed` — contexts that hold such entries only;
* `Program.WellFormed` — programs with a proper name, context and body;
* `Program.setName_eq_ok_iff` and its companions — the exchanges succeed exactly
  on what is allowed;
* `Program.WellFormed.setName` and its companions — they keep a program well-formed.
-/

namespace Program

/-- What a context may hold under a name. -/
structure Allowed (e : String × Statement) : Prop where
  named : isIdentifier e.1 = true
  own : isPrimitive e.1 = false
  block : e.2.isBlock = true
  flat : e.2.hasNestedBlock = false

/-- Nothing forbids an entry exactly when it is allowed. -/
theorem entryViolation?_eq_none_iff {e : String × Statement} :
    entryViolation? e = none ↔ Allowed e := by
  constructor
  · intro h
    unfold entryViolation? at h
    by_cases hnamed : isIdentifier e.1 = true
    · by_cases hown : isPrimitive e.1 = true
      · simp [hnamed, hown] at h
      · by_cases hblock : e.2.isBlock = true
        · by_cases hflat : e.2.hasNestedBlock = true
          · simp [hnamed, hown, hblock, hflat] at h
          · exact ⟨hnamed, by simpa using hown, hblock, by simpa using hflat⟩
        · simp [hnamed, hown, hblock] at h
    · simp [hnamed] at h
  · intro h
    obtain ⟨hnamed, hown, hblock, hflat⟩ := h
    simp [entryViolation?, hnamed, hown, hblock, hflat]

end Program

/-- A context that holds only what a context may hold. -/
def Context.Allowed (c : Context) : Prop := ∀ e ∈ c.entries, Program.Allowed e

namespace Context

theorem allowed_empty : empty.Allowed := nofun

/-- A context stays allowed when an allowed entry is put into it. -/
theorem Allowed.insert {c : Context} (h : c.Allowed) {name : String} {body : Statement}
    (hentry : Program.Allowed (name, body)) : (c.insert name body).Allowed := by
  intro e he
  rcases mem_insertEntry he with rfl | he
  · exact hentry
  · exact h e he

/-- After an insertion something stands under the new name and under the old ones. -/
theorem contains_insert (c : Context) (name : String) (body : Statement) (m : String) :
    (c.insert name body).contains m = (decide (m = name) || c.contains m) := by
  rw [contains, contains, find?_insert]
  by_cases h : m = name
  · simp [h]
  · simp [h]

theorem contains_empty (m : String) : empty.contains m = false := rfl

/-- What stands under a name is the body of the entry with this name. -/
theorem find?_eq_some_iff {c : Context} {n : String} {s : Statement} :
    c.find? n = some s ↔ (n, s) ∈ c.entries := by
  obtain ⟨es, hes⟩ := c
  show lookup? n es = some s ↔ (n, s) ∈ es
  induction es with
  | nil => simp [lookup?]
  | cons e es ih =>
    obtain ⟨he, hes'⟩ := List.pairwise_cons.1 hes
    rw [lookup?_cons]
    by_cases hn : n = e.1
    · subst hn
      -- The entries behind have greater names.
      have hnot : (e.1, s) ∉ es := fun h => String.lt_irrefl e.1 (he (e.1, s) h)
      rw [if_pos rfl, List.mem_cons, or_iff_left hnot]
      constructor
      · intro h
        rw [← Option.some.inj h]
      · intro h
        rw [← h]
    · have hne : (n, s) ≠ e := fun h => hn (congrArg Prod.fst h)
      rw [if_neg hn, ih hes', List.mem_cons, or_iff_right hne]

end Context

namespace Program

/-- A program whose parts have passed the checks of the exchanges. -/
structure WellFormed (p : Program) : Prop where
  named : isIdentifier p.name = true
  context : p.context.Allowed
  block : p.body.isBlock = true
  flat : p.body.hasNestedBlock = false

/-- The program to start from is well-formed. -/
theorem wellFormed_unnamed : unnamed.WellFormed :=
  ⟨by decide +kernel, Context.allowed_empty, rfl, rfl⟩

/-- A name is taken over exactly when it is an identifier. -/
theorem setName_eq_ok_iff {p q : Program} {name : String} :
    p.setName name = .ok q ↔ isIdentifier name = true ∧ q = { p with name := name } := by
  unfold setName
  split
  · next h => simp [h, eq_comm]
  · next h => simp [h]

/-- A context is taken over exactly when it is allowed. -/
theorem swapContext_eq_ok_iff {p : Program} {c : Context} {r : Program × Context} :
    p.swapContext c = .ok r ↔ c.Allowed ∧ r = ({ p with context := c }, p.context) := by
  have hnone : c.entries.findSome? entryViolation? = none ↔ c.Allowed := by
    rw [List.findSome?_eq_none_iff]
    exact forall₂_congr fun e _ => entryViolation?_eq_none_iff
  rw [← hnone, swapContext]
  split
  · next v h => simp [h]
  · next h => simp [h, eq_comm]

/-- A body is taken over exactly when it is a block without nested blocks. -/
theorem swapBody_eq_ok_iff {p : Program} {body : Statement} {r : Program × Statement} :
    p.swapBody body = .ok r ↔
      (body.isBlock = true ∧ body.hasNestedBlock = false) ∧
        r = ({ p with body := body }, p.body) := by
  unfold swapBody
  by_cases hblock : body.isBlock = true
  · by_cases hflat : body.hasNestedBlock = true
    · simp [hblock, hflat]
    · simp [hblock, hflat, eq_comm]
  · simp [hblock]

/-! ### What the exchanges keep -/

namespace WellFormed

variable {p q : Program}

theorem setName {name : String} (hp : p.WellFormed) (h : p.setName name = .ok q) :
    q.WellFormed := by
  obtain ⟨hname, rfl⟩ := setName_eq_ok_iff.1 h
  exact ⟨hname, hp.context, hp.block, hp.flat⟩

theorem swapContext {c old : Context} (hp : p.WellFormed)
    (h : p.swapContext c = .ok (q, old)) : q.WellFormed := by
  obtain ⟨hcontext, heq⟩ := swapContext_eq_ok_iff.1 h
  obtain ⟨rfl, -⟩ := Prod.mk.inj heq
  exact ⟨hp.named, hcontext, hp.block, hp.flat⟩

theorem swapBody {body old : Statement} (hp : p.WellFormed)
    (h : p.swapBody body = .ok (q, old)) : q.WellFormed := by
  obtain ⟨⟨hblock, hflat⟩, heq⟩ := swapBody_eq_ok_iff.1 h
  obtain ⟨rfl, -⟩ := Prod.mk.inj heq
  exact ⟨hp.named, hp.context, hblock, hflat⟩

end WellFormed

end Program

end BlockLanguage
