import BlockLanguage.Statement

namespace BlockLanguage

/-!
# Contexts

A context maps the names of instructions to their bodies.  Its entries stand in
ascending order of their names, compared character by character by code point,
so a context is determined by what it maps.

* `Context` — the sorted entries;
* `Context.insert` — an entry added or replaced;
* `Context.find?`, `Context.contains`, `Context.size` — what it maps;
* `Context.find?_insert`, `Context.ext_find?` — an insertion changes one entry,
  and what a context maps determines it.
-/

/-- The names of instructions with their bodies, in ascending order. -/
structure Context where
  entries : List (String × Statement)
  sorted : entries.Pairwise fun a b => a.1 < b.1

namespace Context

instance : DecidableEq Context := fun c d =>
  decidable_of_iff (c.entries = d.entries) (by cases c; cases d; simp)

/-- The context without entries. -/
def empty : Context := ⟨[], .nil⟩

/-- Puts `body` under `name` among sorted entries, in place of an older one. -/
def insertEntry (name : String) (body : Statement) :
    List (String × Statement) → List (String × Statement)
  | [] => [(name, body)]
  | e :: es =>
    if name < e.1 then (name, body) :: e :: es
    else if name = e.1 then (name, body) :: es
    else e :: insertEntry name body es

/-- The entries after an insertion are the new one and some of the old. -/
theorem mem_insertEntry {name : String} {body : Statement} {e : String × Statement}
    {es : List (String × Statement)} (h : e ∈ insertEntry name body es) :
    e = (name, body) ∨ e ∈ es := by
  induction es with
  | nil => simpa [insertEntry] using h
  | cons a es ih =>
    rw [insertEntry] at h
    split at h
    · simpa using h
    · split at h <;> simp only [List.mem_cons] at h ⊢
      · rcases h with h | h <;> simp [h]
      · rcases h with h | h
        · simp [h]
        · rcases ih h with h | h <;> simp [h]

/-- An insertion keeps the entries in ascending order. -/
theorem sorted_insertEntry (name : String) (body : Statement) {es : List (String × Statement)}
    (h : es.Pairwise fun a b => a.1 < b.1) :
    (insertEntry name body es).Pairwise fun a b => a.1 < b.1 := by
  induction es with
  | nil => simp [insertEntry]
  | cons e es ih =>
    have ⟨he, hes⟩ := List.pairwise_cons.1 h
    rw [insertEntry]
    split
    · next hlt =>
      refine List.pairwise_cons.2 ⟨fun a ha => ?_, h⟩
      rcases List.mem_cons.1 ha with rfl | ha
      · exact hlt
      · exact String.lt_trans hlt (he a ha)
    · next hlt =>
      split
      · next heq => exact List.pairwise_cons.2 ⟨fun a ha => heq ▸ he a ha, hes⟩
      · next hne =>
        refine List.pairwise_cons.2 ⟨fun a ha => ?_, ih hes⟩
        rcases mem_insertEntry ha with rfl | ha
        · exact Decidable.byContradiction fun hge =>
            hne (String.le_antisymm (String.not_lt.1 hge) (String.not_lt.1 hlt))
        · exact he a ha

/-- The context with `body` under `name`, in place of what stood there. -/
def insert (c : Context) (name : String) (body : Statement) : Context :=
  ⟨insertEntry name body c.entries, sorted_insertEntry name body c.sorted⟩

/-- The body under `name` among entries. -/
def lookup? (name : String) (es : List (String × Statement)) : Option Statement :=
  (es.find? (·.1 == name)).map Prod.snd

/-- The body under `name`. -/
def find? (c : Context) (name : String) : Option Statement := lookup? name c.entries

/-- Whether something stands under `name`. -/
def contains (c : Context) (name : String) : Bool := (c.find? name).isSome

/-- The number of entries. -/
def size (c : Context) : Nat := c.entries.length

/-- The context of the given entries; of two with one name the later stays. -/
def ofList (es : List (String × Statement)) : Context :=
  es.foldl (fun c e => c.insert e.1 e.2) empty

/-! ### What a context maps -/

@[simp] theorem find?_empty (name : String) : empty.find? name = none := rfl

theorem lookup?_cons (name : String) (e : String × Statement)
    (es : List (String × Statement)) :
    lookup? name (e :: es) = if name = e.1 then some e.2 else lookup? name es := by
  by_cases h : name = e.1
  · simp [lookup?, h]
  · have h' : (e.1 == name) = false := by simp [Ne.symm h]
    simp [lookup?, h, h']

/-- An insertion puts the body under its name and changes nothing else. -/
theorem find?_insert (c : Context) (name : String) (body : Statement) (m : String) :
    (c.insert name body).find? m = if m = name then some body else c.find? m := by
  obtain ⟨es, h⟩ := c
  simp only [find?, insert]
  clear h
  induction es with
  | nil => rw [insertEntry, lookup?_cons]
  | cons e es ih =>
    rw [insertEntry]
    split
    · rw [lookup?_cons]
    · split
      · next heq => rw [lookup?_cons, lookup?_cons, ← heq]; split <;> rfl
      · next hne =>
        rw [lookup?_cons, ih, lookup?_cons]
        by_cases hm : m = e.1
        · have hne' : m ≠ name := fun h => hne (h.symm.trans hm)
          rw [if_pos hm, if_pos hm, if_neg hne']
        · rw [if_neg hm, if_neg hm]

/-- Nothing stands under a name that lies before all entries. -/
theorem lookup?_eq_none_of_lt {name : String} {es : List (String × Statement)}
    (h : ∀ e ∈ es, name < e.1) : lookup? name es = none := by
  induction es with
  | nil => rfl
  | cons e es ih =>
    have hne : name ≠ e.1 := fun heq =>
      String.lt_irrefl e.1 (heq ▸ h e List.mem_cons_self)
    rw [lookup?_cons, if_neg hne]
    exact ih fun a ha => h a (List.mem_cons_of_mem e ha)

/-- **Extensionality.**  Contexts that map the same are equal. -/
theorem ext_find? {c d : Context} (h : ∀ name, c.find? name = d.find? name) : c = d := by
  obtain ⟨es, hes⟩ := c
  obtain ⟨fs, hfs⟩ := d
  simp only [find?] at h
  suffices es = fs by subst this; rfl
  induction es generalizing fs with
  | nil =>
    cases fs with
    | nil => rfl
    | cons f fs => simpa [lookup?_cons, lookup?] using h f.1
  | cons e es ih =>
    cases fs with
    | nil => simpa [lookup?_cons, lookup?] using h e.1
    | cons f fs =>
      have ⟨he, hes'⟩ := List.pairwise_cons.1 hes
      have ⟨hf, hfs'⟩ := List.pairwise_cons.1 hfs
      -- The first names agree: the smaller of two would have nothing under it on the other side.
      have hle : ∀ {a b : String × Statement} {as bs : List (String × Statement)},
          (∀ x ∈ bs, b.1 < x.1) →
          (∀ name, lookup? name (a :: as) = lookup? name (b :: bs)) → ¬ a.1 < b.1 := by
        intro a b as bs hb hab hlt
        have ha := hab a.1
        rw [lookup?_cons, if_pos rfl, lookup?_eq_none_of_lt] at ha
        · exact nomatch ha
        · intro x hx
          rcases List.mem_cons.1 hx with rfl | hx
          · exact hlt
          · exact String.lt_trans hlt (hb x hx)
      have hkey : e.1 = f.1 :=
        String.le_antisymm (String.not_lt.1 (hle he fun name => (h name).symm))
          (String.not_lt.1 (hle hf h))
      have hbody : e.2 = f.2 := by
        have := h e.1
        rw [lookup?_cons, lookup?_cons, if_pos rfl, if_pos hkey] at this
        exact Option.some.inj this
      have htail : es = fs := by
        refine ih hes' fs hfs' fun name => ?_
        by_cases hname : name = e.1
        · rw [hname, lookup?_eq_none_of_lt he, lookup?_eq_none_of_lt (hkey ▸ hf)]
        · have := h name
          rwa [lookup?_cons, lookup?_cons, if_neg hname, if_neg (hkey ▸ hname)] at this
      rw [htail, Prod.ext hkey hbody]

end Context

end BlockLanguage
