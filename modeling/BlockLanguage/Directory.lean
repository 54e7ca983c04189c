import BlockLanguage.FileError

namespace BlockLanguage

/-!
# Files in a directory

A directory of files held in memory, and how a file name leads to one of them.
The texts between the slashes of a name are steps: an empty one and a dot stay,
two dots lead to the directory around, and any other leads to what the directory
holds under it.

* `Directory`, `Place` — the files, and where a name has led to;
* `Directory.step` — one step from a place;
* `Directory.bytesAt` — the bytes of the file that a name leads to.
-/

/-- Files held in memory, each with the steps that lead to it. -/
structure Directory where
  files : List (List String × ByteArray)

/-- A place: the directory that the steps lead to, a file, or a directory around
    all of them.  Of a directory around nothing else is known. -/
inductive Place
  | inside (steps : List String)
  | file (bytes : ByteArray)
  | around

/-- The greatest number of bytes in a step. -/
def stepLimit : Nat := 255

/-- The greatest number of bytes in a file name. -/
def nameLimit : Nat := 4095

/-- The steps of a file name. -/
def stepsOf (name : String) : List String := (name.toList.splitOn '/').map String.ofList

/-- Whether a step leads nowhere. -/
def isIdle (step : String) : Bool := step = "" || step = "."

namespace Directory

/-- The directory that holds the given files under their names. -/
def ofFiles (files : List (String × ByteArray)) : Directory :=
  ⟨files.map fun f => ((stepsOf f.1).filter fun s => !isIdle s, f.2)⟩

/-- What a directory holds under the given steps: a file, or a directory on the
    way to one. -/
def find? (d : Directory) (steps : List String) : Option Place :=
  match d.files.find? fun f => f.1 = steps with
  | some f => some (.file f.2)
  | none => if d.files.any fun f => steps.isPrefixOf f.1 then some (.inside steps) else none

/-- The place that one step leads to. -/
def step (d : Directory) (place : Place) (s : String) : Except FileError Place :=
  match place with
  | .file _ => .error .notDirectory
  | .inside steps =>
    if isIdle s then .ok place
    else if s = ".." then .ok (if steps.isEmpty then .around else .inside steps.dropLast)
    else if stepLimit < s.utf8ByteSize then .error .nameTooLong
    else
      match d.find? (steps ++ [s]) with
      | some next => .ok next
      | none => .error .notFound
  | .around =>
    if isIdle s || s = ".." then .ok place
    else if stepLimit < s.utf8ByteSize then .error .nameTooLong
    else .error .notFound

/-- The place that steps lead to one after the other. -/
def walk (d : Directory) (place : Place) : List String → Except FileError Place
  | [] => .ok place
  | s :: rest =>
    match d.step place s with
    | .ok next => d.walk next rest
    | .error e => .error e

/-- Where a file name sets out: one that begins with a slash, at the outermost
    directory. -/
def start (name : String) : Place :=
  if name.toList.head? = some '/' then .around else .inside []

/-- The bytes of the file that a name leads to.  A name must not hold the
    character NUL, which ends names in a system, nor be empty or too long. -/
def bytesAt (d : Directory) (name : String) : Except FileError ByteArray :=
  if name.toList.contains '\x00' then .error .nulInName
  else if name.isEmpty then .error .notFound
  else if nameLimit < name.utf8ByteSize then .error .nameTooLong
  else
    match d.walk (start name) (stepsOf name) with
    | .ok (.file bytes) => .ok bytes
    | .ok _ => .error .isDirectory
    | .error e => .error e

end Directory

-- Steps that stay, and steps out of a directory and back.
example : ((Directory.ofFiles [("a/b", .empty)]).bytesAt "a/..//a/./b").toOption.isSome := by
  decide +kernel

-- A file cannot be left like a directory.
example : ((Directory.ofFiles [("a/b", .empty)]).bytesAt "a/b/../b").toOption.isNone := by
  decide +kernel

end BlockLanguage
