import JackCompiler.Files.Host
import JackCompiler.Files.PathName
/-!
# Making a directory with all that leads to it

The directory is made at once where the way to it exists; otherwise the way is made first. That
something is in the way is no fault if it is a directory.
-/

namespace JackCompiler.Host

variable {m : Type → Type} [Monad m] [Host m]

/-- Forgives a failure where the path leads to a directory. -/
def unlessDirectory (path : String) (e : FileError) : m (Except FileError Unit) := do
  if ← isDirectory path then return .ok () else return .error e

/-- Makes a directory with at most so many on the way. -/
def makeWithin : Nat → String → m (Except FileError Unit)
  | 0, path => Host.makeDirectory path
  | depth + 1, path => do
    if path = "" then return .ok ()
    else
      match ← Host.makeDirectory path with
      | .ok () => return .ok ()
      | .error e =>
        if e = .notFound then
          match PathName.parent? path with
          | none => return .error e
          | some parent =>
            match ← makeWithin depth parent with
            | .error e => return .error e
            | .ok () =>
              match ← Host.makeDirectory path with
              | .ok () => return .ok ()
              | .error e => unlessDirectory path e
        else unlessDirectory path e

/-- Makes a directory and what leads to it. Every step drops a segment of the path. -/
def makeDirectories (path : String) : m (Except FileError Unit) :=
  makeWithin (path.length + 1) path

end JackCompiler.Host
