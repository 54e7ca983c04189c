import BlockLanguage.Context
import BlockLanguage.Violation

namespace BlockLanguage

/-!
# Programs

A program has a name, a context of instructions and a body.  The three are
exchanged by checked operations, which keep every program started from
`Program.unnamed` well-formed.

* `Program`, `Program.unnamed` — the type and the program to start from;
* `Program.setName`, `swapContext`, `swapBody` — the exchanges.  A swap gives
  back the new program and the component that it replaced.
-/

/-- A program: its name, the instructions it defines and its body. -/
structure Program where
  name : String
  context : Context
  body : Statement
  deriving DecidableEq

namespace Program

/-- The program to start from: it defines nothing and does nothing. -/
def unnamed : Program := ⟨"Unnamed", .empty, .empty⟩

/-- The program under another name. -/
def setName (p : Program) (name : String) : Except Violation Program :=
  if isIdentifier name then .ok { p with name := name } else .error (.noIdentifier name)

/-- What forbids an entry in a program's context, if anything does. -/
def entryViolation? (e : String × Statement) : Option Violation :=
  if !isIdentifier e.1 then some (.entryNoIdentifier e.1)
  else if isPrimitive e.1 then some (.entryPrimitive e.1)
  else if !e.2.isBlock then some (.entryNoBlock e.1)
  else if e.2.hasNestedBlock then some (.entryHoldsBlock e.1)
  else none

/-- The program with another context, and the context it had.  The first
    entry that is forbidden, in ascending order of names, is reported. -/
def swapContext (p : Program) (context : Context) : Except Violation (Program × Context) :=
  match context.entries.findSome? entryViolation? with
  | some v => .error v
  | none => .ok ({ p with context := context }, p.context)

/-- The program with another body, and the body it had. -/
def swapBody (p : Program) (body : Statement) : Except Violation (Program × Statement) :=
  if !body.isBlock then .error (.bodyNoBlock body.kind)
  else if body.hasNestedBlock then .error .bodyHoldsBlock
  else .ok ({ p with body := body }, p.body)

end Program

end BlockLanguage
