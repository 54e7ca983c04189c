import BlockLanguage.Statement
import BlockLanguage.Vocabulary
import BlockLanguage.Token

namespace BlockLanguage

/-!
# Violations

A checked operation that may not be carried out says which of its conditions
does not hold.

* `Violation` — the conditions;
* `Violation.condition`, `Violation.message` — their wording.
-/

/-- The condition of a checked operation that does not hold. -/
inductive Violation
  | noCondition (text : String)
  | noIdentifier (name : String)
  | wrongKind (expected found : Kind)
  | itemIsBlock
  | itemHoldsBlock
  | partHoldsBlock
  | insertPosition (position length : Nat)
  | removePosition (position length : Nat)
  | entryNoIdentifier (name : String)
  | entryPrimitive (name : String)
  | entryNoBlock (name : String)
  | entryHoldsBlock (name : String)
  | bodyNoBlock (found : Kind)
  | bodyHoldsBlock
  deriving DecidableEq, Repr

namespace Violation

/-- The place and the length that a block operation was given. -/
def bounds (position length : Nat) : String :=
  " (pos = " ++ toString position ++ ", |this| = " ++ toString length ++ ")"

/-- The condition that does not hold, in words. -/
def condition : Violation → String
  | noCondition text => cited text ++ " is a condition string"
  | noIdentifier name => cited name ++ " is a valid IDENTIFIER"
  | wrongKind expected found =>
    "[statement is a " ++ expected.name ++ "] (found " ++ found.name ++ ")"
  | itemIsBlock => "[s is not a BLOCK statement]"
  | itemHoldsBlock => "[s contains no nested BLOCK statement]"
  | partHoldsBlock => "[block contains no nested BLOCK statement]"
  | insertPosition position length => "0 <= pos <= |this|" ++ bounds position length
  | removePosition position length => "0 <= pos < |this|" ++ bounds position length
  | entryNoIdentifier name => "names in c are valid IDENTIFIERs (" ++ cited name ++ ")"
  | entryPrimitive name =>
    "names in c do not match the names of primitive instructions (" ++ cited name ++ ")"
  | entryNoBlock name => "bodies in c are BLOCK statements (" ++ cited name ++ ")"
  | entryHoldsBlock name =>
    "bodies in c contain no nested BLOCK statement (" ++ cited name ++ ")"
  | bodyNoBlock found => "b is a BLOCK statement (found " ++ found.name ++ ")"
  | bodyHoldsBlock => "b contains no nested BLOCK statement"

/-- The full text of a violation. -/
def message (v : Violation) : String := "Violation of: " ++ v.condition

end Violation

/-- The condition that the word `s` writes; a violation if it writes none. -/
def Condition.ofText (s : String) : Except Violation Condition :=
  match Condition.ofText? s with
  | some c => .ok c
  | none => .error (.noCondition s)

end BlockLanguage
