namespace BlockLanguage

/-!
# Files that cannot be read as text

* `FileError` — the system refuses the file, its name cannot be given to the
  system, or its bytes are no text;
* `decodeText` — the text of a file's bytes, `decodeText_eq_ok_iff` — when it is `s`.
-/

/-- Why a file gives no text. -/
inductive FileError
  | system (description : String) (code : Nat)
  | nulInName
  | notText
  deriving DecidableEq, Repr

/-- The description of a file error; the system has a number for each of its own. -/
def FileError.message : FileError → String
  | system description code => description ++ " (os error " ++ toString code ++ ")"
  | nulInName => "file name contained an unexpected NUL byte"
  | notText => "stream did not contain valid UTF-8"

namespace FileError

/-- Nothing has the given name. -/
def notFound : FileError := system "No such file or directory" 2

/-- What has the given name is a directory. -/
def isDirectory : FileError := system "Is a directory" 21

/-- The given name leads through a file. -/
def notDirectory : FileError := system "Not a directory" 20

/-- The given name is too long, or a part of it is. -/
def nameTooLong : FileError := system "File name too long" 36

end FileError

/-- The text that the bytes encode in UTF-8, a leading byte order mark
    included. -/
def decodeText (bytes : ByteArray) : Except FileError String :=
  match String.fromUTF8? bytes with
  | some s => .ok s
  | none => .error .notText

/-- The text of a file is the one that its bytes encode. -/
theorem decodeText_eq_ok_iff {bytes : ByteArray} {s : String} :
    decodeText bytes = .ok s ↔ bytes = s.toUTF8 := by
  unfold decodeText String.fromUTF8?
  by_cases h : bytes.IsValidUTF8
  · have hsame : String.fromUTF8 bytes h = s ↔ bytes = s.toUTF8 := String.toByteArray_inj.symm
    simp [h, hsame]
  · have hother : bytes ≠ s.toUTF8 := fun heq => h (heq ▸ s.isValidUTF8)
    simpa [h] using hother

end BlockLanguage
