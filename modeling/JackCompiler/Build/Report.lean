import JackCompiler.Stack.Chunk
import JackCompiler.Text.CompileError
import JackCompiler.Files.Host
import JackCompiler.Json.Writing
/-!
# The report of a run

A report counts the files that a run has attempted, and has an entry for each. It is written as
JSON with two spaces for each level.
-/

namespace JackCompiler

/-- Why the program breaks off. -/
inductive BuildError
  | access (path : String) (cause : FileError)
  | compile (path : String) (error : CompileError)
  | report (cause : String)
  | notSource (path : String)
  | noSources
  /-- A channel refuses what is printed. No other error is told or recorded behind this one: the
  program ends where it stands. -/
  | unprinted (channel : Channel) (cause : FileError)
  deriving DecidableEq, Repr

namespace BuildError

/-- The wording of an error. -/
def message : BuildError → String
  | access path cause => s!"could not access '{path}': {cause.message}"
  | compile path error => s!"{path}: {error.render}"
  | report cause => s!"could not serialize report: {cause}"
  | notSource path => s!"'{path}' is not a .jack source file"
  | noSources => "no .jack sources found"
  | unprinted channel cause => s!"failed printing to {channel.name}: {cause.message}"

/-- Whether the program ends where it stands. -/
def isFatal : BuildError → Bool
  | unprinted .. => true
  | _ => false

/-- Whether the program has ended with a result. -/
def isFinal {α : Type} : Except BuildError α → Bool
  | .ok _ => false
  | .error e => e.isFatal

end BuildError

/-- A file that has been compiled: its path, the path written if there is one, and its chunk. -/
structure CompiledFile where
  source : String
  output : Option String
  chunk : Chunk
  deriving DecidableEq, Repr

/-- What has become of one file. -/
structure FileEntry where
  path : String
  output : Option String
  routines : UInt64
  instructions : UInt64
  error : Option String
  deriving DecidableEq, Repr

/-- What has become of the files of a run. -/
structure Report where
  total : UInt64
  succeeded : UInt64
  failed : UInt64
  files : List FileEntry
  deriving DecidableEq, Repr

namespace Report

/-- The report of a run that has not begun. -/
def empty : Report := ⟨0, 0, 0, []⟩

/-- Records a file that has been compiled. -/
def addSuccess (r : Report) (f : CompiledFile) : Report :=
  { r with
    total := r.total + 1
    succeeded := r.succeeded + 1
    files := r.files ++ [⟨f.source, f.output, UInt64.ofNat f.chunk.routineCount,
      UInt64.ofNat f.chunk.count, none⟩] }

/-- Records a file that has failed. -/
def addFailure (r : Report) (path : String) (e : BuildError) : Report :=
  { r with
    total := r.total + 1
    failed := r.failed + 1
    files := r.files ++ [⟨path, none, 0, 0, some e.message⟩] }

/-- The report in one line. -/
def summary (r : Report) : String :=
  s!"Compiled {r.succeeded} of {r.total} files ({r.failed} failed)"

end Report

/-- An entry as JSON. -/
def FileEntry.json (e : FileEntry) : String :=
  "    \x7b\n" ++
  "      \"path\": " ++ Json.string e.path ++ ",\n" ++
  "      \"output\": " ++ Json.optional e.output ++ ",\n" ++
  "      \"routines\": " ++ toString e.routines ++ ",\n" ++
  "      \"instructions\": " ++ toString e.instructions ++ ",\n" ++
  "      \"error\": " ++ Json.optional e.error ++ "\n" ++
  "    \x7d"

/-- A report as JSON. -/
def Report.json (r : Report) : String :=
  "\x7b\n" ++
  "  \"total\": " ++ toString r.total ++ ",\n" ++
  "  \"succeeded\": " ++ toString r.succeeded ++ ",\n" ++
  "  \"failed\": " ++ toString r.failed ++ ",\n" ++
  "  \"files\": " ++
  (if r.files.isEmpty then "[]"
    else "[\n" ++ String.intercalate ",\n" (r.files.map (·.json)) ++ "\n  ]") ++
  "\n\x7d"

end JackCompiler
