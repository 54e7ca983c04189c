import BlockLanguage.CommandLine.Run

/-!
# The command `bl`

The outer layer: arguments and files in, output and exit code out.  What is to
be done is decided by `BlockLanguage.runArguments`; here the files that it asks
for are read first.
-/

namespace BlockLanguage

/-- The file that the arguments name, if they can be understood. -/
def Request.file? : Request → Option String
  | .version => none
  | .run _ (.parse file _ _) => some file
  | .run _ (.block file _) => some file
  | .run _ (.tokens file) => some file
  | .run _ (.check file) => some file

/-- The file error that an error of the system stands for. -/
def fileErrorOf : IO.Error → FileError
  | .noFileOrDirectory _ _ _ => .notFound
  | .inappropriateType _ code _ => if code = 21 then .isDirectory else .notDirectory
  | .invalidArgument _ code _ =>
    if code = 36 then .nameTooLong else .system "Invalid argument" 22
  | .permissionDenied _ _ _ => .system "Permission denied" 13
  | _ => .system "Input/output error" 5

/-- The bytes of a file, or why it has none. -/
def readSystemFile (file : String) : IO (Except FileError ByteArray) := do
  try
    return .ok (← IO.FS.readBinFile file)
  catch e =>
    return .error (fileErrorOf e)

end BlockLanguage

open BlockLanguage in
/-- Runs the command on its arguments. -/
def main (args : List String) : IO UInt32 := do
  let filter := (← IO.getEnv "RUST_LOG").bind LogFilter.ofText?
  let bytes ← match (Request.ofArguments? args).bind Request.file? with
    | some file => readSystemFile file
    | none => pure (.error .notFound)
  let outcome := runArguments filter (fun _ => bytes) args
  for line in outcome.errors do
    IO.eprintln line
  IO.print outcome.output
  return UInt32.ofNat outcome.code
