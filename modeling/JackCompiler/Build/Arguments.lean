/-!
# Arguments of the command line

Arguments are read from left to right. An option that takes a value may have it in the same
argument or in the next one, so a value and the paths in a row are held back until it is clear that
they are whole: at the next known option, at a path after a value, or at the end. Only then are they
checked. An unknown option, and a value for an option that takes none, are faults at once.
-/

namespace JackCompiler

/-- What the command line asks for. -/
structure Options where
  paths : List String := []
  outDir : Option String := none
  toStdout : Bool := false
  printTokens : Bool := false
  printTree : Bool := false
  report : Option String := none
  verbose : Bool := false
  deriving DecidableEq, Repr

/-- What is wrong with arguments. -/
inductive UsageError
  | missingPath
  | invalidValue
  | unknownArgument
  | conflict
  | tooManyValues
  deriving DecidableEq, Repr

/-- The wording of a fault. -/
def UsageError.message : UsageError → String
  | missingPath => "no path is given"
  | invalidValue => "a value is missing or empty"
  | unknownArgument => "an argument is unknown"
  | conflict => "arguments cannot be used together or more than once"
  | tooManyValues => "a value is given where none is taken"

/-- Why arguments ask for no compilation. -/
inductive Dismissal
  | help
  | version
  | misuse (error : UsageError)
  deriving DecidableEq, Repr

/-- The exit status of a dismissal. -/
def Dismissal.exitCode : Dismissal → UInt32
  | help | version => 0
  | misuse _ => 2

/-- The options without a value. -/
inductive Flag
  | toStdout | printTokens | printTree | verbose
  deriving DecidableEq, Repr

/-- The options with a value. -/
inductive Setting
  | outDir | report
  deriving DecidableEq, Repr

namespace Options

/-- Whether a flag is given. -/
def has (o : Options) : Flag → Bool
  | .toStdout => o.toStdout
  | .printTokens => o.printTokens
  | .printTree => o.printTree
  | .verbose => o.verbose

/-- The options with a flag. -/
def raise (o : Options) : Flag → Options
  | .toStdout => { o with toStdout := true }
  | .printTokens => { o with printTokens := true }
  | .printTree => { o with printTree := true }
  | .verbose => { o with verbose := true }

/-- The value of a setting. -/
def value? (o : Options) : Setting → Option String
  | .outDir => o.outDir
  | .report => o.report

/-- The options with a value for a setting. -/
def setValue (o : Options) (value : String) : Setting → Options
  | .outDir => { o with outDir := some value }
  | .report => { o with report := some value }

end Options

/-- What is held back until it is whole. The paths stand last first. -/
inductive Held
  | nothing
  | awaiting (setting : Setting)
  | value (setting : Setting) (text : String)
  | paths (texts : List String)
  deriving DecidableEq, Repr

/-- The options checked so far, what is held back, and whether only paths may follow. -/
structure ArgumentState where
  options : Options
  held : Held
  onlyPaths : Bool
  deriving DecidableEq, Repr

namespace ArgumentState

/-- Nothing read yet. -/
def start : ArgumentState := ⟨{}, .nothing, false⟩

/-- A fault. -/
def fault {α : Type} (e : UsageError) : Except Dismissal α := .error (.misuse e)

/-- The options with a value for a setting that has none yet. -/
def assign (o : Options) (setting : Setting) (value : String) : Except Dismissal Options :=
  if (o.value? setting).isSome then fault .conflict
  else if value = "" then fault .invalidValue
  else .ok (o.setValue value setting)

/-- Checks what is held back. -/
def settle (s : ArgumentState) : Except Dismissal ArgumentState :=
  match s.held with
  | .nothing => .ok s
  | .awaiting _ => fault .invalidValue
  | .value setting text => do
    let options ← assign s.options setting text
    return { s with options := options, held := .nothing }
  | .paths texts =>
    if "" ∈ texts then fault .invalidValue
    else
      .ok { s with
        options := { s.options with paths := s.options.paths ++ texts.reverse }, held := .nothing }

/-- A flag. -/
def flag (s : ArgumentState) (f : Flag) : Except Dismissal ArgumentState := do
  let s ← s.settle
  if s.options.has f then fault .conflict else return { s with options := s.options.raise f }

/-- A setting with its value in the same argument. -/
def attached (s : ArgumentState) (setting : Setting) (value : String) :
    Except Dismissal ArgumentState := do
  let s ← s.settle
  let options ← assign s.options setting value
  return { s with options := options }

/-- A setting whose value is the next argument. -/
def await (s : ArgumentState) (setting : Setting) : Except Dismissal ArgumentState := do
  let s ← s.settle
  return { s with held := .awaiting setting }

/-- A request that is answered instead of compiling. -/
def dismiss (s : ArgumentState) (d : Dismissal) : Except Dismissal ArgumentState := do
  let _ ← s.settle
  .error d

/-- An argument that is no option: the value awaited, or a path. -/
def plain (s : ArgumentState) (text : String) : Except Dismissal ArgumentState :=
  match s.held, s.onlyPaths with
  | .awaiting setting, false => .ok { s with held := .value setting text }
  | .paths texts, _ => .ok { s with held := .paths (text :: texts) }
  | _, _ => do
    let s ← s.settle
    return { s with held := .paths [text] }

/-- A word behind two dashes, and what stands behind an equals sign. -/
def long (s : ArgumentState) (name : String) (value : Option String) :
    Except Dismissal ArgumentState :=
  let plainly (act : Except Dismissal ArgumentState) : Except Dismissal ArgumentState :=
    if value.isSome then fault .tooManyValues else act
  let valued (setting : Setting) : Except Dismissal ArgumentState :=
    match value with
    | some v => s.attached setting v
    | none => s.await setting
  if name = "stdout" then plainly (s.flag .toStdout)
  else if name = "print-tokens" then plainly (s.flag .printTokens)
  else if name = "print-ast" then plainly (s.flag .printTree)
  else if name = "verbose" then plainly (s.flag .verbose)
  else if name = "help" then plainly (s.dismiss .help)
  else if name = "version" then plainly (s.dismiss .version)
  else if name = "out-dir" then valued .outDir
  else if name = "report" then valued .report
  else fault .unknownArgument

/-- Letters behind one dash. The letter of a setting takes all that follows for its value. -/
def short : ArgumentState → List Char → Except Dismissal ArgumentState
  | s, [] => .ok s
  | s, 'v' :: rest => do
    let s ← s.flag .verbose
    short s rest
  | s, 'h' :: _ => s.dismiss .help
  | s, 'V' :: _ => s.dismiss .version
  | s, ['o'] => s.await .outDir
  | s, 'o' :: '=' :: value => s.attached .outDir (String.ofList value)
  | s, 'o' :: value => s.attached .outDir (String.ofList value)
  | _, _ => fault .unknownArgument

/-- One argument. -/
def step (s : ArgumentState) (argument : String) : Except Dismissal ArgumentState :=
  if s.onlyPaths then s.plain argument
  else
    match argument.toList with
    | ['-', '-'] => .ok { s with onlyPaths := true }
    | '-' :: '-' :: word =>
      let name := String.ofList (word.takeWhile (· ≠ '='))
      match word.dropWhile (· ≠ '=') with
      | [] => s.long name none
      | _ :: value => s.long name (some (String.ofList value))
    | '-' :: letter :: letters => s.short (letter :: letters)
    | _ => s.plain argument

/-- Checks the options as a whole. -/
def check (o : Options) : Except Dismissal Options :=
  if o.toStdout && o.outDir.isSome then fault .conflict
  else if o.paths.isEmpty then fault .missingPath
  else .ok o

end ArgumentState

/-- What some arguments ask for. -/
def Options.ofArguments (arguments : List String) : Except Dismissal Options := do
  let s ← arguments.foldlM ArgumentState.step .start
  let s ← s.settle
  ArgumentState.check s.options

end JackCompiler
