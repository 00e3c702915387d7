import JackCompiler.Build.Arguments
import JackCompiler.Build.Report
import JackCompiler.Compilation
import JackCompiler.Files.Directories
import JackCompiler.Syntax.Rendering
/-!
# Compiling files

A run turns the paths that are given into a list of source files, and compiles one after the other
up to the first that fails. The instructions of a file go into a file of their own, next to the
source or in one directory for all, or to the standard output; messages go to the other channel
then. Where a channel refuses a message or instructions, the program ends at once: the attempt at
the file is not recorded.
-/

namespace JackCompiler

/-- The extension of a source file. -/
def sourceExtension : String := "jack"

/-- The extension of a file with instructions. -/
def outputExtension : String := "vm"

/-- Whether a path names a source file. -/
def isSource (path : String) : Bool := PathName.extension? path = some sourceExtension

/-- The file that the instructions of a source file go into. -/
def outputPath (outDir : Option String) (source : String) : String :=
  let target := PathName.withExtension source outputExtension
  match outDir, PathName.name? target with
  | some directory, some name => PathName.join directory name
  | _, _ => target

/-- A time in nanoseconds, in the largest unit that leaves a whole part. -/
def renderDuration (nanoseconds : Nat) : String :=
  let inUnit (unit : Nat) (name : String) : String :=
    let fraction := (toString (unit + nanoseconds % unit)).toList.drop 1
    let digits := (fraction.reverse.dropWhile (· = '0')).reverse
    let point := if digits.isEmpty then "" else "."
    toString (nanoseconds / unit) ++ point ++ String.ofList digits ++ name
  if 1000000000 ≤ nanoseconds then inUnit 1000000000 "s"
  else if 1000000 ≤ nanoseconds then inUnit 1000000 "ms"
  else if 1000 ≤ nanoseconds then inUnit 1000 "µs"
  else toString nanoseconds ++ "ns"

namespace Build

variable {m : Type → Type} [Monad m] [Host m]

/-- Gives the value, or fails. -/
def demand {α β : Type} (fail : β → BuildError) : Except β α → ExceptT BuildError m α
  | .ok a => pure a
  | .error b => throw (fail b)

/-- Prints a text, or ends the program. -/
def say (channel : Channel) (text : String) : ExceptT BuildError m Unit := do
  demand (.unprinted channel) (← Host.print channel text)

/-- The channel of messages: not the one of the instructions. -/
def diagnosticChannel (o : Options) : Channel := if o.toStdout then .errors else .output

/-- Prints a message. -/
def diagnose (o : Options) (line : String) : ExceptT BuildError m Unit :=
  say (diagnosticChannel o) (line ++ "\n")

/-- Prints how long something has taken, if that is asked for. -/
def reportTime (o : Options) (what path : String) (start : Nat) : ExceptT BuildError m Unit := do
  if o.verbose then
    let stop ← Host.now
    diagnose o s!"{what} {path} in {renderDuration (stop - start)}"

/-- Prints the significant tokens of a text. -/
def printTokens (o : Options) (path source : String) : ExceptT BuildError m Unit := do
  let tokens ← demand (.compile path) (tokenize source)
  (tokens.filter (!·.isTrivia)).forM fun t => diagnose o s!"{t.position.render}\t{t.describe}"

/-- Compiles a text, with the messages that are asked for. -/
def compileSource (o : Options) (path source : String) : ExceptT BuildError m Chunk := do
  if o.printTokens then printTokens o path source
  let start ← Host.now
  let tree ← demand (.compile path) (ClassTree.ofSource source)
  reportTime o "Parsed" path start
  if o.printTree then diagnose o tree.render
  let start ← Host.now
  let chunk ← demand (.compile path) tree.chunk
  reportTime o "Codegen" path start
  return chunk

/-- Puts the instructions of a file where they go: the path written, if there is one. -/
def emit (o : Options) (path : String) (chunk : Chunk) : ExceptT BuildError m (Option String) := do
  if o.toStdout then
    say .output chunk.text
    return none
  else
    let output := outputPath o.outDir path
    match o.outDir with
    | none => pure ()
    | some directory => demand (.access directory) (← Host.makeDirectories directory)
    demand (.access output) (← Host.write output chunk.text)
    if o.verbose then diagnose o s!"Wrote to {output}"
    return some output

/-- Reads, compiles and emits one file. -/
def compileFile (o : Options) (path : String) : ExceptT BuildError m CompiledFile := do
  if isSource path then
    let source ← demand (.access path) (← Host.readText path)
    let chunk ← compileSource o path source
    let output ← emit o path chunk
    return ⟨path, output, chunk⟩
  else throw (.notSource path)

/-- The source files of one path: those that a directory holds itself, in the order of their names,
or the file. -/
def sourcesAt (path : String) : ExceptT BuildError m (List String) := do
  match ← demand (.access path) (← Host.kindOf path) with
  | .directory =>
    let names ← Host.filesIn path
    let found := (names.filter fun name => isSource (PathName.join path name)).mergeSort
      fun a b => decide (a ≤ b)
    return found.map (PathName.join path)
  | .file => if isSource path then return [path] else throw (.notSource path)

/-- The source files of all paths. -/
def discover (paths : List String) : ExceptT BuildError m (List String) := do
  let sources ← paths.mapM sourcesAt
  if sources.flatten.isEmpty then throw .noSources else return sources.flatten

/-- Compiles files up to the first that fails, and records each, unless the program ends there. The
files compiled stand last first. -/
def compileAll (o : Options) : List String → Report → List CompiledFile →
    m (Report × Except BuildError (List CompiledFile))
  | [], report, done => return (report, .ok done.reverse)
  | path :: rest, report, done => do
    match ← (compileFile o path).run with
    | .ok file => compileAll o rest (report.addSuccess file) (file :: done)
    | .error e => return (if e.isFatal then report else report.addFailure path e, .error e)

/-- Compiles all that the options name. -/
def run (o : Options) (report : Report) : m (Report × Except BuildError (List CompiledFile)) := do
  match ← (discover o.paths).run with
  | .ok sources => compileAll o sources report []
  | .error e => return (report, .error e)

end Build

end JackCompiler
