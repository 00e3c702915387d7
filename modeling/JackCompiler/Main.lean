import JackCompiler.Build.Program
/-!
# The command line

The operations of the system, and the program over them.
-/

namespace JackCompiler.LocalSystem

/-- The wording of the common errors, by their numbers. -/
def descriptions : List (Nat × String) := [
  (1, "Operation not permitted"), (2, "No such file or directory"), (5, "Input/output error"),
  (13, "Permission denied"), (17, "File exists"), (20, "Not a directory"), (21, "Is a directory"),
  (22, "Invalid argument"), (28, "No space left on device"), (30, "Read-only file system"),
  (36, "File name too long"), (40, "Too many levels of symbolic links")]

/-- An error of the system. Some of its operations give the number with the sign turned. -/
def numbered (code : UInt32) (details : String) : FileError :=
  let number := if code < 0x80000000 then code.toNat else (0 - code).toNat
  .system number ((descriptions.lookup number).getD details)

/-- What the system says of an operation that fails. -/
def fault : IO.Error → FileError
  | .alreadyExists _ code details
  | .otherError code details
  | .resourceBusy code details
  | .resourceVanished code details
  | .unsupportedOperation code details
  | .hardwareFault code details
  | .unsatisfiedConstraints code details
  | .illegalOperation code details
  | .protocolError code details
  | .timeExpired code details
  | .interrupted _ code details
  | .noFileOrDirectory _ code details
  | .invalidArgument _ code details
  | .permissionDenied _ code details
  | .resourceExhausted _ code details
  | .inappropriateType _ code details
  | .noSuchThing _ code details => numbered code details
  | .unexpectedEof => .system 0 "unexpected end of file"
  | .userError text => .system 0 text

/-- The outcome of an operation, with its failure as a value. -/
def outcome {α : Type} (operation : IO α) : IO (Except FileError α) := do
  match ← operation.toBaseIO with
  | .ok a => return .ok a
  | .error e => return .error (fault e)

/-- A path as the entry of a directory. -/
def entry (path : String) : IO.FS.DirEntry := ⟨path, ""⟩

/-- What a path leads to. -/
def kindOf (path : String) : IO FileKind := do
  match (← (entry path).root.metadata).type with
  | .dir => return .directory
  | _ => return .file

/-- Whether an entry of a directory is a file. One that cannot be looked at counts as a file, so
that reading it tells why. -/
def isFile (e : IO.FS.DirEntry) : IO Bool := do
  match ← e.path.symlinkMetadata.toBaseIO with
  | .ok metadata => return metadata.type == .file
  | .error _ => return true

/-- The names of the files that a directory holds itself. -/
def filesIn (path : String) : IO (List String) := do
  let found ← (entry path).root.readDir
  let files ← found.toList.filterM isFile
  return files.map (·.fileName)

/-- Gives a file a content. The content is on its way before the file is closed, so that a device
without room is noticed. -/
def write (path content : String) : IO Unit :=
  IO.FS.withFile path .write fun file => do
    file.putStr content
    file.flush

/-- Prints a text, in front of all that is printed or written later. -/
def print (channel : Channel) (text : String) : IO Unit := do
  let stream ← match channel with
    | .output => IO.getStdout
    | .errors => IO.getStderr
  stream.putStr text
  stream.flush

end JackCompiler.LocalSystem

namespace JackCompiler

instance : Host IO where
  kindOf path := LocalSystem.outcome (LocalSystem.kindOf path)
  filesIn path := do
    match ← LocalSystem.outcome (LocalSystem.filesIn path) with
    | .ok names => return names
    | .error _ => return []
  read path := LocalSystem.outcome (IO.FS.readBinFile path)
  write path content := LocalSystem.outcome (LocalSystem.write path content)
  makeDirectory path := LocalSystem.outcome (IO.FS.createDir path)
  print channel text := LocalSystem.outcome (LocalSystem.print channel text)
  now := IO.monoNanosNow

end JackCompiler

/-- Runs the program on the arguments of the command line. -/
def main (arguments : List String) : IO UInt32 := JackCompiler.Program.main arguments
