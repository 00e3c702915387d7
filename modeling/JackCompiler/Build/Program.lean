import JackCompiler.Build.Libraries
import JackCompiler.Build.Run
/-!
# The program

The program reads its arguments, runs, writes the report that is asked for, and says what has gone
wrong. A report that cannot be written is the fault that counts. Where a channel refuses a text, the
program ends at once with a status of its own, and no report is written any more; what the runtime
says of it then is left out.
-/

namespace JackCompiler.Program

variable {m : Type → Type} [Monad m] [Host m]

/-- The name and version of the program. -/
def versionLine : String := "jackc 0.1.0"

/-- How the program is used. -/
def usage : String :=
  "Compile Jack classes to VM code\n\n" ++
  "Usage: jackc [OPTIONS] <PATHS>...\n\n" ++
  "Arguments:\n" ++
  "  <PATHS>...  .jack files, or directories whose .jack files are compiled\n\n" ++
  "Options:\n" ++
  "  -o, --out-dir <DIR>  Write .vm files into this directory instead of next to each source\n" ++
  "      --stdout         Print generated code to stdout instead of writing files\n" ++
  "      --print-tokens   Print the token stream before compiling\n" ++
  "      --print-ast      Print the AST before generating code\n" ++
  "      --report <PATH>  Write a JSON compile report to this path\n" ++
  "  -v, --verbose        Print per-file timings and output paths\n" ++
  "  -h, --help           Print help\n" ++
  "  -V, --version        Print version\n"

/-- Answers arguments that ask for no compilation, whether the answer can be printed or not. -/
def dismiss (d : Dismissal) : m UInt32 := do
  let _ ← match d with
    | .help => Host.print .output usage
    | .version => Host.print .output (versionLine ++ "\n")
    | .misuse e => Host.print .errors (s!"error: {e.message}" ++ "\n")
  return d.exitCode

/-- Prints a line on the channel of errors. -/
def complain (line : String) : ExceptT BuildError m Unit := Build.say .errors (line ++ "\n")

/-- Writes the report that is asked for. -/
def writeReport (L : Libraries) (o : Options) (report : Report) : ExceptT BuildError m Unit :=
  match o.report with
  | none => pure ()
  | some path => do
    let text ← Build.demand .report (L.encode report)
    Build.demand (.access path) (← Host.write path text)

/-- Says how a run has ended. -/
def conclude (o : Options) (report : Report) :
    Except BuildError (List CompiledFile) → ExceptT BuildError m UInt32
  | .ok _ => do
    if o.verbose then Build.diagnose o report.summary
    return 0
  | .error e => do
    match e with
    | .compile .. => complain s!"Compile Error: {e.message}"
    | _ => complain s!"Error: {e.message}"
    return 1

/-- What comes behind a run: its report is written, and then it is said how it has ended. -/
def close (L : Libraries) (o : Options) (report : Report)
    (result : Except BuildError (List CompiledFile)) : ExceptT BuildError m UInt32 := do
  match ← ExceptT.lift (writeReport L o report).run with
  | .error e =>
    complain s!"Error: {e.message}"
    return 1
  | .ok () => conclude o report result

/-- The status of a program that ends where it stands. -/
def fatalStatus : UInt32 := 101

/-- The program over its libraries: its exit status. -/
def run (L : Libraries) (arguments : List String) : m UInt32 := do
  match L.readArguments arguments with
  | .error d => dismiss d
  | .ok o =>
    let (report, result) ← Build.run o .empty
    if BuildError.isFinal result then return fatalStatus
    else
      match ← (close L o report result).run with
      | .ok status => return status
      | .error _ => return fatalStatus

/-- The program: its exit status. -/
def main (arguments : List String) : m UInt32 := run .standard arguments

end JackCompiler.Program
