import BlockLanguage.Outline.Tree
import BlockLanguage.Proofs.Quoting

namespace BlockLanguage

/-!
# Outlines tell what they show

The outline of a tree or of a program can be read from its text, on one line or expanded: in
front of every item it can be seen whether there is one more, and every item ends where its
brackets do.  So different trees have different texts.

* `Outline.Style`, `Outline.written` — the text of an outline in a style, `Outline.plain_eq`,
  `Outline.expanded_eq` — both texts are such;
* `Outline.Style.Clear` — the styles in which it can be seen where items end;
* `Outline.toldApart_group` and its companions — outlines that are told apart by their texts;
* `Statement.fields`, `Statement.toldApart_outline`, `Program.toldApart_outline` — outlines of
  statements and programs;
* `dumps_tell_trees` — their texts.
-/

namespace Outline

/-- **Induction on outlines.**  A property of a group follows from that of its items. -/
theorem induction {P : Outline → Prop} (leaf : ∀ text, P (.leaf text))
    (labelled : ∀ label item, P item → P (.labelled label item))
    (group : ∀ b items, (∀ o ∈ items, P o) → P (.group b items)) (o : Outline) : P o :=
  @Outline.rec P (fun os => ∀ o ∈ os, P o) leaf labelled group nofun
    (fun _ _ ho hos => List.forall_mem_cons.2 ⟨ho, hos⟩) o

/-! ### Styles -/

/-- What stands in front of the first item between brackets, between two items, and behind the
    last one. -/
structure Style where
  first : (level : Nat) → (spaced : Bool) → List Char
  next : (level : Nat) → List Char
  last : (level : Nat) → (spaced : Bool) → List Char

/-- A new line at a level. -/
def newLineChars (level : Nat) : List Char := '\n' :: List.replicate (4 * level) ' '

/-- All items on one line. -/
def Style.line : Style where
  first _ spaced := if spaced then [' '] else []
  next _ := [',', ' ']
  last _ spaced := if spaced then [' '] else []

/-- One item a line. -/
def Style.lines : Style where
  first level _ := newLineChars (level + 1)
  next level := ',' :: newLineChars level
  last level _ := ',' :: newLineChars level

mutual

/-- The characters of an outline that begins at `level`. -/
def written (st : Style) (level : Nat) : Outline → List Char
  | leaf text => text.toList
  | labelled label item => label.toList ++ (": ".toList ++ written st level item)
  | group b [] => b.opening.toList ++ b.closing.toList
  | group b (item :: items) =>
    b.opening.toList ++ (st.first level b.spaced ++ (written st (level + 1) item ++
      (writtenAfter st (level + 1) items ++ (st.last level b.spaced ++ b.closing.toList))))

/-- The characters of further items. -/
def writtenAfter (st : Style) (level : Nat) : List Outline → List Char
  | [] => []
  | item :: items => st.next level ++ (written st level item ++ writtenAfter st level items)

end

theorem toList_plainAfter {os : List Outline}
    (h : ∀ o ∈ os, ∀ level, o.plain.toList = o.written .line level) (level : Nat) :
    (plainAfter os).toList = writtenAfter .line level os := by
  induction os with
  | nil => rfl
  | cons o os ih =>
    rw [List.forall_mem_cons] at h
    simp only [plainAfter, writtenAfter, String.toList_append, h.1 level, ih h.2, List.append_assoc]
    rfl

/-- **On one line**, an outline is written in this style, from any level. -/
theorem toList_plain (o : Outline) : ∀ level, o.plain.toList = o.written .line level := by
  induction o using Outline.induction with
  | leaf text =>
    intro level
    rfl
  | labelled label item ih =>
    intro level
    simp only [plain, written, String.toList_append, ih level, List.append_assoc]
  | group b items ih =>
    intro level
    cases items with
    | nil => simp only [plain, written, String.toList_append]
    | cons item items =>
      rw [List.forall_mem_cons] at ih
      have hmargin : (if b.spaced then " " else "").toList = Style.line.first level b.spaced := by
        unfold Style.line
        cases b.spaced <;> rfl
      simp only [plain, written, String.toList_append, ih.1 (level + 1),
        toList_plainAfter ih.2 (level + 1), hmargin, List.append_assoc]
      rfl

theorem toList_newLine (level : Nat) : (newLine level).toList = newLineChars level := by
  unfold newLine newLineChars
  rw [String.toList_append, toList_spaces]
  rfl

theorem toList_expandedAfter {os : List Outline}
    (h : ∀ o ∈ os, ∀ level, (o.expanded level).toList = o.written .lines level) (level : Nat) :
    ',' :: (expandedAfter level os).toList = writtenAfter .lines level os ++ [','] := by
  have hcomma : ",".toList = [','] := rfl
  induction os with
  | nil => rfl
  | cons o os ih =>
    rw [List.forall_mem_cons] at h
    have htail := ih h.2
    simp only [expandedAfter, writtenAfter, String.toList_append, h.1 level, toList_newLine, hcomma,
      List.append_assoc, ← htail]
    rfl

/-- **With one item a line**, an outline is written in this style. -/
theorem toList_expanded (o : Outline) :
    ∀ level, (o.expanded level).toList = o.written .lines level := by
  have hcomma : ",".toList = [','] := rfl
  induction o using Outline.induction with
  | leaf text =>
    intro level
    rfl
  | labelled label item ih =>
    intro level
    simp only [expanded, written, String.toList_append, ih level, List.append_assoc]
  | group b items ih =>
    intro level
    cases items with
    | nil => simp only [expanded, written, String.toList_append]
    | cons item items =>
      rw [List.forall_mem_cons] at ih
      have hafter := toList_expandedAfter ih.2 (level + 1)
      have hlast : Style.lines.last level b.spaced ++ b.closing.toList =
          [','] ++ (newLineChars level ++ b.closing.toList) := rfl
      have hfirst : Style.lines.first level b.spaced = newLineChars (level + 1) := rfl
      simp only [expanded, written, String.toList_append, ih.1 (level + 1), toList_newLine, hcomma,
        hlast, hfirst, ← List.append_assoc, ← hafter]
      simp only [List.append_assoc, List.singleton_append]

/-! ### Where items end -/

/-- Whether a character closes brackets. -/
def isCloser (c : Char) : Bool := c == ']' || c == ')' || c == '\x7d'

/-- It can be seen in front of every place for an item whether there is one. -/
structure Style.Clear (st : Style) : Prop where
  first_ne : ∀ {level : Nat} {spaced : Bool} {c k : Char} {x y : List Char},
    isCloser c = false → isCloser k = true → st.first level spaced ++ c :: x ≠ k :: y
  next_ne : ∀ {level : Nat} {spaced : Bool} {k : Char} {x y : List Char},
    isCloser k = true → st.next (level + 1) ++ x ≠ st.last level spaced ++ k :: y

/-- On one line, a comma or the brackets stand behind an item. -/
theorem Style.clear_line : Style.line.Clear where
  first_ne := by
    intro level spaced c k x y hc hk heq
    cases spaced with
    | true =>
      obtain rfl : ' ' = k := List.head_eq_of_cons_eq heq
      cases hk
    | false =>
      obtain rfl : c = k := List.head_eq_of_cons_eq heq
      rw [hc] at hk
      cases hk
  next_ne := by
    intro level spaced k x y hk heq
    cases spaced with
    | true => cases List.head_eq_of_cons_eq heq
    | false =>
      obtain rfl : ',' = k := List.head_eq_of_cons_eq heq
      cases hk

/-- With one item a line, an item is indented further than the brackets behind it. -/
theorem Style.clear_lines : Style.lines.Clear where
  first_ne := by
    intro level spaced c k x y hc hk heq
    obtain rfl : '\n' = k := List.head_eq_of_cons_eq heq
    cases hk
  next_ne := by
    intro level spaced k x y hk heq
    have hfurther : List.replicate (4 * (level + 1)) ' ' =
        List.replicate (4 * level) ' ' ++ ' ' :: List.replicate 3 ' ' := by
      rw [← List.replicate_succ, List.replicate_append_replicate]
      rfl
    have heq : ',' :: '\n' :: (List.replicate (4 * (level + 1)) ' ' ++ x) =
        ',' :: '\n' :: (List.replicate (4 * level) ' ' ++ k :: y) := heq
    rw [hfurther, List.append_assoc, List.cons.injEq, List.cons.injEq] at heq
    obtain rfl : ' ' = k := List.head_eq_of_cons_eq (List.append_cancel_left heq.2.2)
    cases hk

/-- What the characters of an outline begin with. -/
def front : Outline → String
  | leaf text => text
  | labelled label _ => label
  | group b _ => b.opening

theorem exists_written_eq (st : Style) (level : Nat) (o : Outline) :
    ∃ rest, o.written st level = o.front.toList ++ rest := by
  match o with
  | leaf text => exact ⟨[], (List.append_nil _).symm⟩
  | labelled label item => exact ⟨_, rfl⟩
  | group b [] => exact ⟨_, rfl⟩
  | group b (item :: items) => exact ⟨_, rfl⟩

/-- The characters of an outline begin with one that does not close brackets. -/
def Opens (o : Outline) : Prop := ∃ c cs, o.front.toList = c :: cs ∧ isCloser c = false

/-- The brackets are closed by one character. -/
def Closes (b : Brackets) (k : Char) : Prop := b.closing.toList = [k] ∧ isCloser k = true

/-! ### Outlines that are told apart -/

section
variable {st : Style} {level : Nat} {o o' : Outline} {os os' : List Outline}

/-- The items at the same places are told apart. -/
def AllToldApart (st : Style) (level : Nat) : List Outline → List Outline → Prop
  | o :: os, o' :: os' => ToldApart (written st level) o o' ∧ AllToldApart st level os os'
  | _, _ => True

theorem toldApart_leaf {u v : String} (h : ToldApart String.toList u v) :
    ToldApart (written st level) (leaf u) (leaf v) := by
  intro r r' heq
  obtain ⟨rfl, hr⟩ := h r r' heq
  exact ⟨rfl, hr⟩

theorem toldApart_labelled {l l' : String} (hl : ToldApart String.toList l l')
    (h : ToldApart (written st level) o o') :
    ToldApart (written st level) (labelled l o) (labelled l' o') := by
  intro r r' heq
  simp only [written, List.append_assoc] at heq
  obtain ⟨rfl, hrest⟩ := hl _ _ heq
  obtain ⟨rfl, hr⟩ := h _ _ (List.append_cancel_left hrest)
  exact ⟨rfl, hr⟩

/-- Where further items end it can be seen that there is none. -/
theorem writtenAfter_append_inj (hst : st.Clear) {spaced : Bool} {k : Char}
    (hk : isCloser k = true) (h : AllToldApart st (level + 1) os os') {r r' : List Char}
    (heq : writtenAfter st (level + 1) os ++ (st.last level spaced ++ k :: r) =
      writtenAfter st (level + 1) os' ++ (st.last level spaced ++ k :: r')) :
    os = os' ∧ r = r' := by
  induction os generalizing os' with
  | nil =>
    cases os' with
    | nil => exact ⟨rfl, List.tail_eq_of_cons_eq (List.append_cancel_left heq)⟩
    | cons o' os' =>
      simp only [writtenAfter, List.append_assoc] at heq
      exact absurd heq.symm (hst.next_ne hk)
  | cons o os ih =>
    cases os' with
    | nil =>
      simp only [writtenAfter, List.append_assoc] at heq
      exact absurd heq (hst.next_ne hk)
    | cons o' os' =>
      simp only [writtenAfter, List.append_assoc] at heq
      obtain ⟨rfl, hrest⟩ := h.1 _ _ (List.append_cancel_left heq)
      obtain ⟨rfl, hr⟩ := ih h.2 hrest
      exact ⟨rfl, hr⟩

/-- In front of the first item it can be seen that there is one. -/
theorem first_written_ne (hst : st.Clear) {spaced : Bool} {k : Char} (hk : isCloser k = true)
    (ho : o.Opens) (x y : List Char) :
    st.first level spaced ++ (o.written st (level + 1) ++ x) ≠ k :: y := by
  obtain ⟨rest, hwritten⟩ := exists_written_eq st (level + 1) o
  obtain ⟨c, cs, hfront, hc⟩ := ho
  rw [hwritten, hfront]
  exact hst.first_ne hc hk

/-- **Groups** in the same brackets are told apart if their items are. -/
theorem toldApart_group (hst : st.Clear) {b : Brackets} {k : Char} (hb : Closes b k)
    (hos : ∀ o ∈ os, o.Opens) (hos' : ∀ o ∈ os', o.Opens)
    (h : AllToldApart st (level + 1) os os') :
    ToldApart (written st level) (group b os) (group b os') := by
  obtain ⟨hclosing, hk⟩ := hb
  intro r r' heq
  cases os with
  | nil =>
    cases os' with
    | nil =>
      simp only [written] at heq
      exact ⟨rfl, List.append_cancel_left heq⟩
    | cons o' os' =>
      simp only [written, hclosing, List.append_assoc] at heq
      exact absurd (List.append_cancel_left heq).symm
        (first_written_ne hst hk (hos' o' List.mem_cons_self) _ _)
  | cons o os =>
    cases os' with
    | nil =>
      simp only [written, hclosing, List.append_assoc] at heq
      exact absurd (List.append_cancel_left heq)
        (first_written_ne hst hk (hos o List.mem_cons_self) _ _)
    | cons o' os' =>
      simp only [written, hclosing, List.append_assoc, List.singleton_append] at heq
      have hitems := List.append_cancel_left (List.append_cancel_left heq)
      obtain ⟨rfl, hrest⟩ := h.1 _ _ hitems
      obtain ⟨rfl, hr⟩ := writtenAfter_append_inj hst hk h.2 hrest
      exact ⟨rfl, hr⟩

end

end Outline

open Outline

variable {st : Style} {level : Nat}

/-! ### Statements -/

/-- No name of a condition begins another. -/
theorem Condition.eq_of_isPrefix {c d : Condition} (h : c.name.toList <+: d.name.toList) :
    c = d := by
  have hall : ∀ c ∈ all, ∀ d ∈ all, c.name.toList <+: d.name.toList → c = d := by
    decide +kernel
  exact hall c (mem_all c) d (mem_all d) h

theorem Condition.toldApart_name (c d : Condition) : ToldApart String.toList c.name d.name :=
  toldApart_of_prefix (fun h => congrArg name (eq_of_isPrefix h)) fun h =>
    congrArg name (eq_of_isPrefix h).symm

theorem Condition.name_injective {c d : Condition} (h : c.name = d.name) : c = d :=
  eq_of_isPrefix (h ▸ List.prefix_refl _)

/-- The brackets around the parts of a statement. -/
def Kind.brackets : Kind → Brackets
  | .block => ⟨Kind.block.name ++ "(", ")", false⟩
  | k => ⟨k.name ++ " \x7b", "\x7d", true⟩

/-- No brackets of a kind begin those of another. -/
theorem Kind.eq_of_isPrefix {k l : Kind}
    (h : k.brackets.opening.toList <+: l.brackets.opening.toList) : k = l := by
  revert h
  cases k <;> cases l <;> decide +kernel

theorem Kind.exists_closes (k : Kind) : ∃ c, Outline.Closes k.brackets c := by
  cases k with
  | block => exact ⟨')', rfl, rfl⟩
  | _ => exact ⟨'\x7d', rfl, rfl⟩

namespace Statement

/-- The outlines of the parts of a statement. -/
def fields : Statement → List Outline
  | .block children => [.list (outlines children)]
  | .ifThen c body =>
    [.labelled "condition" (.leaf c.name), .labelled "then_block" (.list (outlines body))]
  | .ifElse c thenBody elseBody =>
    [.labelled "condition" (.leaf c.name), .labelled "then_block" (.list (outlines thenBody)),
      .labelled "else_block" (.list (outlines elseBody))]
  | .whileDo c body =>
    [.labelled "condition" (.leaf c.name), .labelled "body" (.list (outlines body))]
  | .call name => [.labelled "instruction" (.leaf (quote name))]

/-- The outline of a statement shows its kind and its parts. -/
theorem outline_eq (s : Statement) : s.outline = .group s.kind.brackets s.fields := by
  cases s <;> rfl

theorem opens_outline (s : Statement) : s.outline.Opens := by
  have hfront : ∀ k : Kind, ∃ c cs, k.brackets.opening.toList = c :: cs ∧ isCloser c = false := by
    intro k
    cases k <;> exact ⟨_, _, rfl, rfl⟩
  rw [outline_eq]
  exact hfront s.kind

theorem opens_of_mem_outlines {ss : List Statement} : ∀ o ∈ outlines ss, o.Opens := by
  induction ss with
  | nil => exact nofun
  | cons s ss ih => exact List.forall_mem_cons.2 ⟨s.opens_outline, ih⟩

theorem opens_of_mem_fields (s : Statement) : ∀ o ∈ s.fields, o.Opens := by
  cases s with
  | block children =>
    have hlist : (Outline.list (outlines children)).Opens :=
      ⟨'[', [], show "[".toList = ['['] from rfl, rfl⟩
    exact List.forall_mem_singleton.2 hlist
  | _ => simp [fields, Outline.Opens, front, isCloser]

/-- Statements are told apart if those of one kind are told apart by their parts. -/
theorem toldApart_of_fields (hst : st.Clear) {s t : Statement}
    (h : s.kind = t.kind → AllToldApart st (level + 1) s.fields t.fields) :
    ToldApart (written st level) s.outline t.outline := by
  intro r r' heq
  have hkind : s.kind = t.kind := by
    obtain ⟨x, hx⟩ := exists_written_eq st level s.outline
    obtain ⟨y, hy⟩ := exists_written_eq st level t.outline
    rw [hx, hy, outline_eq, outline_eq, List.append_assoc, List.append_assoc] at heq
    exact (isPrefix_of_append_eq heq).elim Kind.eq_of_isPrefix fun h => (Kind.eq_of_isPrefix h).symm
  obtain ⟨c, hc⟩ := s.kind.exists_closes
  rw [outline_eq s, outline_eq t, ← hkind] at heq ⊢
  exact toldApart_group hst hc s.opens_of_mem_fields t.opens_of_mem_fields (h hkind) r r' heq

/-- Lists of statements are told apart if their statements are. -/
theorem toldApart_list (hst : st.Clear) {ss ts : List Statement}
    (h : AllToldApart st (level + 1) (outlines ss) (outlines ts)) :
    ToldApart (written st level) (.list (outlines ss)) (.list (outlines ts)) :=
  toldApart_group hst ⟨rfl, rfl⟩ opens_of_mem_outlines opens_of_mem_outlines h

/-- **Outlines of statements** are told apart by their texts. -/
theorem toldApart_outline (hst : st.Clear) :
    (∀ (s t : Statement) (level : Nat), ToldApart (written st level) s.outline t.outline) ∧
    ∀ (ss ts : List Statement) (level : Nat),
      AllToldApart st level (outlines ss) (outlines ts) := by
  have hcondition : ∀ (c d : Condition) (level : Nat),
      ToldApart (written st level) (.labelled "condition" (.leaf c.name))
        (.labelled "condition" (.leaf d.name)) := fun c d _ =>
    toldApart_labelled (toldApart_self _ _) (toldApart_leaf (c.toldApart_name d))
  -- A labelled list of statements is told apart from another under the same label.
  have hlist : ∀ {ss : List Statement} (label : String), (∀ ts level,
      AllToldApart st level (outlines ss) (outlines ts)) → ∀ ts level,
      ToldApart (written st level) (.labelled label (.list (outlines ss)))
        (.labelled label (.list (outlines ts))) := fun _ h ts level =>
    toldApart_labelled (toldApart_self _ _) (toldApart_list hst (h ts (level + 1)))
  refine induction ?_ ?_ ?_ ?_ ?_ ?_ ?_
  · intro cs ih t level
    refine toldApart_of_fields hst fun hkind => ?_
    cases t with
    | block ds => exact ⟨toldApart_list hst (ih ds _), trivial⟩
    | _ => cases hkind
  · intro c b ih t level
    refine toldApart_of_fields hst fun hkind => ?_
    cases t with
    | ifThen d b' => exact ⟨hcondition c d _, hlist _ ih b' _, trivial⟩
    | _ => cases hkind
  · intro c a b iha ihb t level
    refine toldApart_of_fields hst fun hkind => ?_
    cases t with
    | ifElse d a' b' => exact ⟨hcondition c d _, hlist _ iha a' _, hlist _ ihb b' _, trivial⟩
    | _ => cases hkind
  · intro c b ih t level
    refine toldApart_of_fields hst fun hkind => ?_
    cases t with
    | whileDo d b' => exact ⟨hcondition c d _, hlist _ ih b' _, trivial⟩
    | _ => cases hkind
  · intro n t level
    refine toldApart_of_fields hst fun hkind => ?_
    cases t with
    | call m =>
      exact ⟨toldApart_labelled (toldApart_self _ _) (toldApart_leaf (toldApart_toList_quote n m)),
        trivial⟩
    | _ => cases hkind
  · intro ts level
    exact trivial
  · intro s ss ihs ihss ts level
    cases ts with
    | nil => exact trivial
    | cons t ts => exact ⟨ihs t level, ihss ts level⟩

/-- Statements with one outline have one kind, and the same parts. -/
theorem kind_eq_of_outline_eq {s t : Statement} (h : s.outline = t.outline) :
    s.kind = t.kind ∧ s.fields = t.fields := by
  rw [outline_eq, outline_eq] at h
  obtain ⟨hbrackets, hfields⟩ := Outline.group.inj h
  exact ⟨Kind.eq_of_isPrefix (hbrackets ▸ List.prefix_refl _), hfields⟩

/-- Different statements have different outlines. -/
theorem outline_injective :
    (∀ s t : Statement, s.outline = t.outline → s = t) ∧
    ∀ ss ts : List Statement, outlines ss = outlines ts → ss = ts := by
  have hlist : ∀ {os os' : List Outline}, Outline.list os = Outline.list os' → os = os' := fun h =>
    (Outline.group.inj h).2
  refine induction ?_ ?_ ?_ ?_ ?_ ?_ ?_
  · intro cs ih t h
    obtain ⟨hkind, hfields⟩ := kind_eq_of_outline_eq h
    cases t with
    | block ds =>
      simp only [fields, List.cons.injEq, and_true] at hfields
      rw [ih ds (hlist hfields)]
    | _ => cases hkind
  · intro c b ih t h
    obtain ⟨hkind, hfields⟩ := kind_eq_of_outline_eq h
    cases t with
    | ifThen d b' =>
      simp only [fields, List.cons.injEq, Outline.labelled.injEq, Outline.leaf.injEq, true_and,
        and_true] at hfields
      rw [Condition.name_injective hfields.1, ih b' (hlist hfields.2)]
    | _ => cases hkind
  · intro c a b iha ihb t h
    obtain ⟨hkind, hfields⟩ := kind_eq_of_outline_eq h
    cases t with
    | ifElse d a' b' =>
      simp only [fields, List.cons.injEq, Outline.labelled.injEq, Outline.leaf.injEq, true_and,
        and_true] at hfields
      obtain ⟨hcondition, hthen, helse⟩ := hfields
      rw [Condition.name_injective hcondition, iha a' (hlist hthen), ihb b' (hlist helse)]
    | _ => cases hkind
  · intro c b ih t h
    obtain ⟨hkind, hfields⟩ := kind_eq_of_outline_eq h
    cases t with
    | whileDo d b' =>
      simp only [fields, List.cons.injEq, Outline.labelled.injEq, Outline.leaf.injEq, true_and,
        and_true] at hfields
      rw [Condition.name_injective hfields.1, ih b' (hlist hfields.2)]
    | _ => cases hkind
  · intro n t h
    obtain ⟨hkind, hfields⟩ := kind_eq_of_outline_eq h
    cases t with
    | call m =>
      simp only [fields, List.cons.injEq, Outline.labelled.injEq, Outline.leaf.injEq, true_and,
        and_true] at hfields
      rw [quote_injective hfields]
    | _ => cases hkind
  · intro ts h
    cases ts with
    | nil => rfl
    | cons t ts => cases h
  · intro s ss ihs ihss ts h
    cases ts with
    | nil => cases h
    | cons t ts =>
      obtain ⟨hs, hss⟩ := List.cons.inj h
      rw [ihs t hs, ihss ts hss]

end Statement

/-! ### Programs -/

namespace Program

/-- The outlines of the entries of a context. -/
def entryOutlines (es : List (String × Statement)) : List Outline :=
  es.map fun e => .labelled (quote e.1) e.2.outline

/-- The outlines of the parts of a program. -/
def fields (p : Program) : List Outline :=
  [.labelled "name" (.leaf (quote p.name)),
    .labelled "context" (.group ⟨"\x7b", "\x7d", false⟩ (entryOutlines p.context.entries)),
    .labelled "body" p.body.outline]

/-- The outline of a program shows its parts. -/
theorem outline_eq (p : Program) :
    p.outline = .group ⟨"Program" ++ " \x7b", "\x7d", true⟩ p.fields := by
  simp [outline, Outline.record, Outline.map, fields, entryOutlines]

theorem opens_of_mem_entryOutlines {es : List (String × Statement)} :
    ∀ o ∈ entryOutlines es, o.Opens := by
  intro o ho
  obtain ⟨e, -, rfl⟩ := List.mem_map.1 ho
  exact ⟨'"', _, toList_quote e.1, rfl⟩

theorem allToldApart_entries (hst : st.Clear) (es es' : List (String × Statement)) :
    AllToldApart st level (entryOutlines es) (entryOutlines es') := by
  induction es generalizing es' with
  | nil => exact trivial
  | cons e es ih =>
    cases es' with
    | nil => exact trivial
    | cons e' es' =>
      have hbody := (Statement.toldApart_outline hst).1 e.2 e'.2 level
      exact ⟨toldApart_labelled (toldApart_toList_quote e.1 e'.1) hbody, ih es'⟩

/-- **Outlines of programs** are told apart by their texts. -/
theorem toldApart_outline (hst : st.Clear) (p q : Program) (level : Nat) :
    ToldApart (written st level) p.outline q.outline := by
  have hopens : ∀ p : Program, ∀ o ∈ p.fields, o.Opens := by
    intro p
    simp [fields, Outline.Opens, front, isCloser]
  rw [outline_eq, outline_eq]
  refine toldApart_group hst ⟨rfl, rfl⟩ (hopens p) (hopens q) ⟨?_, ?_, ?_, trivial⟩
  · exact toldApart_labelled (toldApart_self _ _)
      (toldApart_leaf (toldApart_toList_quote p.name q.name))
  · refine toldApart_labelled (toldApart_self _ _) (toldApart_group hst ⟨rfl, rfl⟩ ?_ ?_ ?_)
    · exact opens_of_mem_entryOutlines
    · exact opens_of_mem_entryOutlines
    · exact allToldApart_entries hst _ _
  · exact toldApart_labelled (toldApart_self _ _)
      ((Statement.toldApart_outline hst).1 p.body q.body _)

/-- Different entries have different outlines. -/
theorem entryOutlines_injective {es es' : List (String × Statement)}
    (h : entryOutlines es = entryOutlines es') : es = es' := by
  refine List.map_injective_iff.2 ?_ h
  intro e e' heq
  obtain ⟨hname, hbody⟩ := Outline.labelled.inj heq
  exact Prod.ext (quote_injective hname) (Statement.outline_injective.1 _ _ hbody)

/-- Different programs have different outlines. -/
theorem outline_injective {p q : Program} (h : p.outline = q.outline) : p = q := by
  rw [outline_eq, outline_eq] at h
  have hfields := (Outline.group.inj h).2
  simp only [fields, List.cons.injEq, Outline.labelled.injEq, Outline.leaf.injEq,
    Outline.group.injEq, true_and, and_true] at hfields
  obtain ⟨hname, hentries, hbody⟩ := hfields
  obtain ⟨name, ⟨entries, sorted⟩, body⟩ := p
  obtain ⟨name', ⟨entries', sorted'⟩, body'⟩ := q
  obtain rfl : name = name' := quote_injective hname
  obtain rfl : entries = entries' := entryOutlines_injective hentries
  obtain rfl : body = body' := Statement.outline_injective.1 _ _ hbody
  rfl

end Program

/-! ### Texts of outlines -/

/-- The text of an outline, on one line or expanded, is written in a clear style. -/
theorem Outline.exists_style (expanded : Bool) :
    ∃ st : Style, st.Clear ∧ ∀ o : Outline, (o.text expanded).toList = o.written st 0 := by
  cases expanded with
  | true => exact ⟨.lines, Style.clear_lines, fun o => toList_expanded o 0⟩
  | false => exact ⟨.line, Style.clear_line, fun o => toList_plain o 0⟩

/-- **Texts of outlines tell trees.**  On one line as well as expanded, the texts for two
    statements are equal exactly if the statements are, and the texts for two programs exactly
    if the programs are. -/
theorem dumps_tell_trees (expanded : Bool) :
    (∀ s t : Statement, s.dump expanded = t.dump expanded ↔ s = t) ∧
    ∀ p q : Program, p.dump expanded = q.dump expanded ↔ p = q := by
  obtain ⟨st, hst, htext⟩ := Outline.exists_style expanded
  -- Equal texts, with nothing behind them, are those of one outline.
  have houtline : ∀ o o' : Outline, ToldApart (written st 0) o o' →
      o.text expanded = o'.text expanded → o = o' := by
    intro o o' h heq
    have hwritten : written st 0 o ++ [] = written st 0 o' ++ [] := by
      rw [← htext, ← htext, heq]
    exact (h [] [] hwritten).1
  refine ⟨fun s t => ⟨fun h => ?_, fun h => h ▸ rfl⟩, fun p q => ⟨fun h => ?_, fun h => h ▸ rfl⟩⟩
  · have happart := (Statement.toldApart_outline hst).1 s t 0
    exact Statement.outline_injective.1 s t (houtline _ _ happart h)
  · exact Program.outline_injective (houtline _ _ (Program.toldApart_outline hst p q 0) h)

end BlockLanguage
