import BlockLanguage.Grammar.Statement
import BlockLanguage.Program

namespace BlockLanguage

/-!
# The rules of programs

```text
program    = PROGRAM name IS definition* BEGIN block END name     and the end mark
definition = INSTRUCTION name IS block END name
```

The two names of a program, or of a definition, are the same.  No definition
has the name of a primitive instruction or of an earlier definition.

* `Rule.definition`, `Rule.definitions`, `Rule.program` — the rules;
* `parseProgram` — the rule of programs from the outside.
-/

namespace Rule

/-- The name at the end of a section; it must be the one at its beginning. -/
def closingName (of : Section) (role : Role) (opening : Token) : Rule Unit := do
  let closing ← identifier role
  require (closing.text = opening.text) closing.position
    (.nameMismatch of opening.text closing.text)

theorem keeps_closingName (of : Section) (role : Role) (opening : Token) :
    (closingName of role opening).Keeps :=
  (keeps_token _ _).bind fun _ => keeps_require _ _ _

/-- The definition of an instruction: the token of its name, and its body. -/
def definition : Rule (Token × List Statement) := do
  keyword .instruction
  let name ← identifier .instructionName
  require (!isPrimitive name.text) name.position (.redefinesPrimitive name.text)
  keyword .is
  let body ← block nestingLimit
  keyword .end_
  closingName .instruction .instructionClosing name
  let count ← checked (Statement.length (.block body))
  emit (.definition name.text count)
  return (name, body)

theorem progresses_definition : definition.Progresses :=
  (progresses_token _ _).bind fun _ => (keeps_token _ _).bind fun _ => (keeps_require _ _ _).bind
    fun _ => (keeps_token _ _).bind fun _ => (keeps_block _).bind fun _ => (keeps_token _ _).bind
    fun _ => (keeps_closingName _ _ _).bind fun _ => (keeps_checked _).bind fun _ =>
    (keeps_emit _).bind fun _ => keeps_pure _

/-- One more definition behind those of `context`. -/
def defined (context : Context) : Rule Context := do
  let (name, body) ← definition
  require (!context.contains name.text) name.position (.duplicate name.text)
  return context.insert name.text (.block body)

/-- One more definition behind those of `context`, if one begins here. -/
def define (context : Context) : Rule Context := ⟨fun ts =>
  if startsWith .instruction ts then (defined context).read ts
  else (failAtFront .definition (.unexpected .definition)).read ts⟩

theorem progresses_define (context : Context) : (define context).Progresses := by
  intro ts
  simp only [define]
  split
  · exact (progresses_definition.bind fun _ => (keeps_require _ _ _).bind fun _ => keeps_pure _) ts
  · exact progresses_failAtFront _ _ ts

/-- The definitions up to the body of a program. -/
def definitions : Rule Context :=
  iterate (startsWith .begin) define progresses_define Context.empty

/-- A whole program and the end mark. -/
def program : Rule Program := do
  keyword .program
  let name ← identifier .programName
  keyword .is
  let context ← definitions
  keyword .begin
  let body ← block nestingLimit
  keyword .end_
  closingName .program .programClosing name
  endOfInput
  emit (.program name.text context.size)
  let named ← checked (Program.unnamed.setName name.text)
  let (equipped, _) ← checked (named.swapContext context)
  let (complete, _) ← checked (equipped.swapBody (.block body))
  return complete

end Rule

/-- Reads a whole program; where it succeeds, no token is left. -/
def parseProgram (ts : Tokens) : Reading Error Program := Rule.program.run ts

end BlockLanguage
