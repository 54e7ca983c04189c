namespace BlockLanguage

/-!
# Conditions

The ten tests that a branch or a loop can make on the robot's surroundings.

* `Condition.text` — how a condition is written in a program;
* `Condition.name` — its name in a syntax tree's outline;
* `Condition.ofText?` — the condition that a word writes, if it writes one;
* `conditionWords`, `isCondition` — the words that stand for conditions in the grammar,
  which are those that write one.
-/

/-- What a branch or a loop tests. -/
inductive Condition
  | nextIsEmpty
  | nextIsNotEmpty
  | nextIsWall
  | nextIsNotWall
  | nextIsFriend
  | nextIsNotFriend
  | nextIsEnemy
  | nextIsNotEnemy
  | random
  | always
  deriving DecidableEq, Repr

namespace Condition

/-- All conditions. -/
def all : List Condition :=
  [nextIsEmpty, nextIsNotEmpty, nextIsWall, nextIsNotWall, nextIsFriend, nextIsNotFriend,
   nextIsEnemy, nextIsNotEnemy, random, always]

/-- The word that writes a condition in a program. -/
def text : Condition → String
  | nextIsEmpty => "next-is-empty"
  | nextIsNotEmpty => "next-is-not-empty"
  | nextIsWall => "next-is-wall"
  | nextIsNotWall => "next-is-not-wall"
  | nextIsFriend => "next-is-friend"
  | nextIsNotFriend => "next-is-not-friend"
  | nextIsEnemy => "next-is-enemy"
  | nextIsNotEnemy => "next-is-not-enemy"
  | random => "random"
  | always => "true"

/-- The name of a condition in an outline. -/
def name : Condition → String
  | nextIsEmpty => "NextIsEmpty"
  | nextIsNotEmpty => "NextIsNotEmpty"
  | nextIsWall => "NextIsWall"
  | nextIsNotWall => "NextIsNotWall"
  | nextIsFriend => "NextIsFriend"
  | nextIsNotFriend => "NextIsNotFriend"
  | nextIsEnemy => "NextIsEnemy"
  | nextIsNotEnemy => "NextIsNotEnemy"
  | random => "Random"
  | always => "True"

/-- The condition that the word `s` writes, if it writes one. -/
def ofText? (s : String) : Option Condition := all.find? (·.text == s)

/-- No condition is missing from the list of all. -/
theorem mem_all (c : Condition) : c ∈ all := by cases c <;> decide

/-- Different conditions are written differently. -/
theorem text_injective {c d : Condition} (h : c.text = d.text) : c = d := by
  revert h; cases c <;> cases d <;> decide

/-- A condition is read back from the word that writes it, and from no other. -/
theorem ofText?_eq_some_iff {s : String} {c : Condition} : ofText? s = some c ↔ c.text = s := by
  constructor
  · intro h
    simpa using List.find?_some h
  · rintro rfl
    cases c <;> decide

end Condition

/-- The words that stand for conditions in the grammar. -/
def conditionWords : List String :=
  ["next-is-empty", "next-is-not-empty", "next-is-wall", "next-is-not-wall", "next-is-friend",
   "next-is-not-friend", "next-is-enemy", "next-is-not-enemy", "random", "true"]

/-- They are the words that write the conditions. -/
theorem conditionWords_eq : conditionWords = Condition.all.map Condition.text := rfl

/-- Whether the word `s` stands for a condition. -/
def isCondition (s : String) : Bool := conditionWords.contains s

/-- A word stands for a condition exactly when one can be read from it. -/
theorem isCondition_iff {s : String} : isCondition s = true ↔ ∃ c : Condition, c.text = s := by
  simp [isCondition, conditionWords_eq, Condition.mem_all]

end BlockLanguage
