/-!
# What a program asks of its host

Compiling files needs a few operations of the system around: asking what a path leads to, listing,
reading and writing files, making directories, printing, and a clock. A program is written over any
host that offers them, so it runs on a real system and on a model of one. All but listing and the
clock can be refused. Paths and names are texts: names that are no text are left out.
-/

namespace JackCompiler

/-- Why an operation on a file fails: the system refuses it, or the file is no text. -/
inductive FileError
  | system (code : Nat) (description : String)
  | notText
  deriving DecidableEq, Repr

namespace FileError

/-- Nothing is there. -/
def notFound : FileError := .system 2 "No such file or directory"

/-- Something is there already. -/
def alreadyThere : FileError := .system 17 "File exists"

/-- A file stands where a directory is needed. -/
def notDirectory : FileError := .system 20 "Not a directory"

/-- A directory stands where a file is needed. -/
def isDirectory : FileError := .system 21 "Is a directory"

/-- A device has no room for what is written. -/
def noSpace : FileError := .system 28 "No space left on device"

/-- The system does not allow the access. -/
def notAllowed : FileError := .system 13 "Permission denied"

/-- A name is longer than the system can keep. -/
def nameTooLong : FileError := .system 36 "File name too long"

/-- The wording of an error. -/
def message : FileError → String
  | system code description => s!"{description} (os error {code})"
  | notText => "stream did not contain valid UTF-8"

end FileError

/-- What a path leads to. -/
inductive FileKind
  | directory
  | file
  deriving DecidableEq, Repr

/-- Where a line is printed. -/
inductive Channel
  | output
  | errors
  deriving DecidableEq, Repr

/-- The name of a channel. -/
def Channel.name : Channel → String
  | output => "stdout"
  | errors => "stderr"

/-- The operations of a host, as actions of `m`. -/
class Host (m : Type → Type) where
  /-- What a path leads to. -/
  kindOf : String → m (Except FileError FileKind)
  /-- The names of the files that a directory holds itself. -/
  filesIn : String → m (List String)
  /-- The bytes of a file. -/
  read : String → m (Except FileError ByteArray)
  /-- Gives a file, new or old, a text for its content. -/
  write : String → String → m (Except FileError Unit)
  /-- Makes one directory. -/
  makeDirectory : String → m (Except FileError Unit)
  /-- Prints a text. Where it is refused, a front of it may have been printed. -/
  print : Channel → String → m (Except FileError Unit)
  /-- A clock in nanoseconds. -/
  now : m Nat

/-- Actions that may fail have the host of the actions that they are made of. -/
instance {ε : Type} {m : Type → Type} [Monad m] [Host m] : Host (ExceptT ε m) where
  kindOf path := ExceptT.lift (Host.kindOf path)
  filesIn path := ExceptT.lift (Host.filesIn path)
  read path := ExceptT.lift (Host.read path)
  write path content := ExceptT.lift (Host.write path content)
  makeDirectory path := ExceptT.lift (Host.makeDirectory path)
  print channel text := ExceptT.lift (Host.print channel text)
  now := ExceptT.lift Host.now

namespace Host

variable {m : Type → Type} [Monad m] [Host m]

/-- Whether a path leads to a directory. -/
def isDirectory (path : String) : m Bool := do
  match ← Host.kindOf path with
  | .ok .directory => return true
  | _ => return false

/-- The text of a file. -/
def readText (path : String) : m (Except FileError String) := do
  match ← Host.read path with
  | .error e => return .error e
  | .ok bytes =>
    match String.fromUTF8? bytes with
    | some s => return .ok s
    | none => return .error .notText

end Host

end JackCompiler
