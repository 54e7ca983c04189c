namespace BlockLanguage

/-!
# Command-line arguments

```text
bl [-v] COMMAND [-v] FILE        COMMAND is parse, block, tokens or check
   --indent N                    spaces a level (parse, block)
   --show-ast                    the outline before the text (parse)
```

Options stand before or behind the file, and `--` ends them.  None may be
repeated.

* `Command`, `Request` — what the arguments can ask for;
* `Options.read?` — the arguments of a command;
* `Request.ofArguments?` — all arguments, `Request.read?_word`, `Request.read?_option` — what
  the first of them does;
* `Request.ofArguments?_verbose` — arguments that ask for more log lines.
-/

/-- The work to be done on a file. -/
inductive Command
  | parse (file : String) (indent : Option Nat) (showTree : Bool)
  | block (file : String) (indent : Option Nat)
  | tokens (file : String)
  | check (file : String)
  deriving DecidableEq, Repr

/-- What the arguments ask for. -/
inductive Request
  | version
  | run (verbose : Bool) (command : Command)
  deriving DecidableEq, Repr

/-- The first word of a command. -/
inductive Verb
  | parse
  | block
  | tokens
  | check
  deriving DecidableEq, Repr

namespace Verb

/-- The verb with the given spelling. -/
def ofText? (s : String) : Option Verb :=
  if s = "parse" then some parse
  else if s = "block" then some block
  else if s = "tokens" then some tokens
  else if s = "check" then some check
  else none

/-- Whether the command writes text whose indent can be chosen. -/
def hasIndent : Verb → Bool
  | parse => true
  | block => true
  | tokens => false
  | check => false

/-- Whether the command can show an outline. -/
def hasShowTree : Verb → Bool
  | parse => true
  | _ => false

end Verb

/-- The least number that is too large for an indent. -/
def indentBound : Nat := Nat.pow 2 64

/-- The number that decimal digits write, read behind `n`. -/
def decimalValue (n : Nat) (digits : List Char) : Nat :=
  digits.foldl (fun n d => 10 * n + (d.toNat - '0'.toNat)) n

/-- The indent that a text writes: digits, with a plus sign before them or not. -/
def readIndent? (s : String) : Option Nat :=
  let digits := match s.toList with
    | '+' :: rest => rest
    | cs => cs
  if digits.isEmpty || !digits.all Char.isDigit then none
  else if decimalValue 0 digits < indentBound then some (decimalValue 0 digits)
  else none

/-- Whether an argument is taken for an option: it begins with a hyphen and
    goes on. -/
def isOption (s : String) : Bool :=
  match s.toList with
  | '-' :: _ :: _ => true
  | _ => false

/-- What follows `lead` in the text `s`, if `s` begins with it. -/
def restAfter? (lead s : String) : Option String :=
  if lead.toList.isPrefixOf s.toList then some (String.ofList (s.toList.drop lead.length)) else none

/-- The options and the file read so far. -/
structure Options where
  verbose : Bool
  indent : Option Nat
  showTree : Bool
  file : Option String
  deriving DecidableEq, Repr

namespace Options

/-- No options and no file. -/
def empty : Options := ⟨false, none, false, none⟩

/-- Takes the option that asks for more log lines. -/
def addVerbose? (o : Options) : Option Options :=
  if o.verbose then none else some { o with verbose := true }

/-- Takes the option that asks for the outline. -/
def addShowTree? (o : Options) : Option Options :=
  if o.showTree then none else some { o with showTree := true }

/-- Takes the indent that `value` writes. -/
def addIndent? (o : Options) (value : String) : Option Options :=
  match o.indent, readIndent? value with
  | none, some n => some { o with indent := some n }
  | _, _ => none

/-- Takes the file. -/
def addFile? (o : Options) (file : String) : Option Options :=
  if o.file.isSome || file.isEmpty then none else some { o with file := some file }

/-- Takes arguments that are all files. -/
def readFiles? (o : Options) : List String → Option Options
  | [] => some o
  | a :: rest => do readFiles? (← o.addFile? a) rest

/-- Reads the arguments behind `verb`. -/
def read? (verb : Verb) (o : Options) : List String → Option Options
  | [] => some o
  | a :: rest =>
    if a = "--" then o.readFiles? rest
    else if a = "-v" || a = "--verbose" then do
      read? verb (← o.addVerbose?) rest
    else if a = "--show-ast" && verb.hasShowTree then do
      read? verb (← o.addShowTree?) rest
    else if a = "--indent" && verb.hasIndent then
      match rest with
      | [] => none
      | value :: rest =>
        if isOption value then none else do read? verb (← o.addIndent? value) rest
    else
      match restAfter? "--indent=" a with
      | some value =>
        if verb.hasIndent then do read? verb (← o.addIndent? value) rest else none
      | none =>
        if isOption a then none else do read? verb (← o.addFile? a) rest

/-- The command that `verb` and its options ask for; there must be a file. -/
def command? (verb : Verb) (o : Options) : Option Command := do
  let file ← o.file
  return match verb with
    | .parse => .parse file o.indent o.showTree
    | .block => .block file o.indent
    | .tokens => .tokens file
    | .check => .check file

end Options

namespace Request

/-- What a run of one-letter options asks for: the version as soon as its letter
    comes, or more log lines, and then whether that has been asked for. -/
def readLetters? (verbose : Bool) : List Char → Option (Option Bool)
  | [] => some (some verbose)
  | c :: rest =>
    if c = 'V' then some none
    else if c = 'v' && !verbose then readLetters? true rest
    else none

/-- Reads all arguments; `verbose` tells whether more log lines have been asked
    for before them.  No answer means that they cannot be understood. -/
def read? (verbose : Bool) : List String → Option Request
  | [] => none
  | a :: rest =>
    if a = "--version" then some version
    else if a = "--verbose" then
      if verbose then none else read? true rest
    else if isOption a then do
      match ← readLetters? verbose (a.toList.drop 1) with
      | none => return version
      | some verbose => read? verbose rest
    else do
      let verb ← Verb.ofText? a
      let o ← Options.empty.read? verb rest
      return run (verbose || o.verbose) (← o.command? verb)

/-- What all arguments ask for, if they can be understood. -/
def ofArguments? (args : List String) : Option Request := read? false args

/-! ### What the first argument does -/

/-- Letters that do not ask for the version leave more log lines asked for, unless there are
    none of them. -/
theorem readLetters?_eq_some {before verbose : Bool} {letters : List Char}
    (h : readLetters? before letters = some (some verbose)) :
    verbose = (before || !letters.isEmpty) := by
  induction letters generalizing before with
  | nil =>
    cases h
    exact (Bool.or_false verbose).symm
  | cons c letters ih =>
    unfold readLetters? at h
    by_cases hversion : c = 'V'
    · simp [hversion] at h
    · by_cases hletter : c = 'v' ∧ before = false
      · simp only [hletter] at h
        simpa using ih h
      · simp_all

/-- A word that is no option is the verb of the command. -/
theorem read?_word {before : Bool} {a : String} {rest : List String} {request : Request}
    (ha : isOption a = false) :
    read? before (a :: rest) = some request ↔
      ∃ verb o command, Verb.ofText? a = some verb ∧ Options.empty.read? verb rest = some o ∧
        o.command? verb = some command ∧ run (before || o.verbose) command = request := by
  have hother : ∀ b : String, isOption b = true → a ≠ b := by
    intro b hb heq
    rw [heq, hb] at ha
    cases ha
  have hversion := hother "--version" (by decide +kernel)
  have hverbose := hother "--verbose" (by decide +kernel)
  have hread : read? before (a :: rest) = (Verb.ofText? a).bind fun verb =>
      (Options.empty.read? verb rest).bind fun o =>
        (o.command? verb).bind fun command => some (run (before || o.verbose) command) := by
    simp [read?, hversion, hverbose, ha]
  simp only [hread, Option.bind_eq_some_iff, Option.some.injEq, exists_and_left]

/-- In front of a command any option asks for more log lines. -/
theorem read?_option {before verbose : Bool} {a : String} {rest : List String} {command : Command}
    (ha : isOption a = true) (h : read? before (a :: rest) = some (run verbose command)) :
    read? true rest = some (run verbose command) := by
  have hletters : (a.toList.drop 1).isEmpty = false := by
    unfold isOption at ha
    split at ha
    · next hchars =>
      rw [hchars]
      rfl
    · cases ha
  unfold read? at h
  by_cases hversion : a = "--version"
  · simp [hversion] at h
  · by_cases hverbose : a = "--verbose"
    · cases before <;> simp_all
    · rw [if_neg hversion, if_neg hverbose, if_pos ha] at h
      cases hread : readLetters? before (a.toList.drop 1) with
      | none =>
        rw [hread] at h
        cases h
      | some answer =>
        rw [hread] at h
        cases answer with
        | none => cases h
        | some v =>
          have hv := readLetters?_eq_some hread
          rw [hletters, Bool.not_false, Bool.or_true] at hv
          rw [← hv]
          exact h

/-! ### Asking for more log lines -/

/-- Once more log lines have been asked for, this stays so. -/
theorem read?_true {args : List String} {verbose : Bool} {command : Command}
    (h : read? true args = some (.run verbose command)) : verbose = true := by
  induction args with
  | nil => cases h
  | cons a rest ih =>
    cases ha : isOption a with
    | true => exact ih (read?_option ha h)
    | false =>
      obtain ⟨verb, o, c, -, -, -, hrun⟩ := (read?_word ha).1 h
      cases hrun
      rfl

/-- **More log lines.**  Whatever command is asked for without more log lines, can be asked for
    with them: by an option in front. -/
theorem ofArguments?_verbose {args : List String} {command : Command}
    (h : ofArguments? args = some (.run false command)) :
    ofArguments? ("-v" :: args) = some (.run true command) := by
  have hfront : ofArguments? ("-v" :: args) = read? true args := by
    rw [ofArguments?, read?]
    rfl
  rw [hfront]
  cases args with
  | nil => cases h
  | cons a rest =>
    cases ha : isOption a with
    | true => cases read?_true (read?_option ha h)
    | false =>
      obtain ⟨verb, o, c, hverb, ho, hc, hrun⟩ := (read?_word ha).1 h
      obtain ⟨-, rfl⟩ := run.inj hrun
      exact (read?_word ha).2 ⟨verb, o, c, hverb, ho, hc, rfl⟩

end Request

-- One plus sign is allowed before the digits, and nothing else.
example : readIndent? "+12" = some 12 ∧ readIndent? "" = none ∧ readIndent? "1_0" = none := by
  decide +kernel

example : Request.ofArguments? ["-v", "parse", "--indent=4", "p.bl"] =
    some (.run true (.parse "p.bl" (some 4) false)) := by decide +kernel

end BlockLanguage
