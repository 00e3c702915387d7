import JackCompiler.Text.Position
/-!
# Errors of compilation

The first error ends a compilation, so an error is one value: its kind, its wording, the text found
and the text expected where there are such, and the place. The named errors fix the wording of
every way in which a class can be refused.
-/

namespace JackCompiler

/-- The stage that refused a class. -/
inductive ErrorKind
  | lexical
  | parse
  | nameResolution
  | unsupportedConstruct
  deriving DecidableEq, Repr

namespace ErrorKind

/-- The kind as it is written in messages. -/
def text : ErrorKind → String
  | lexical => "lexical error"
  | parse => "parse error"
  | nameResolution => "name resolution error"
  | unsupportedConstruct => "unsupported construct"

/-- Whether the fault lies with the compiler and not with the class. -/
def isInternal : ErrorKind → Bool
  | unsupportedConstruct => true
  | _ => false

end ErrorKind

/-- Why a class is refused, and where. -/
structure CompileError where
  kind : ErrorKind
  message : String
  found : Option String := none
  expected : Option String := none
  position : Option Position := none
  deriving DecidableEq, Repr

namespace CompileError

/-- What is reported as found when the tokens run out. -/
def endOfInput : String := "end of input"

/-- The error with another text found. -/
def withFound (e : CompileError) (found : String) : CompileError := { e with found := some found }

/-- The error with another text expected. -/
def withExpected (e : CompileError) (expected : String) : CompileError :=
  { e with expected := some expected }

/-- Bytes that open no lexeme. -/
def unrecognizedInput (fragment : String) (position : Option Position) : CompileError :=
  ⟨.lexical, s!"unrecognized input '{fragment}'", some fragment, none, position⟩

/-- A token that the grammar has no place for. -/
def unexpectedToken (expected found : String) (position : Option Position) : CompileError :=
  ⟨.parse, s!"expected {expected} but found {found}", some found, some expected, position⟩

/-- Tokens that run out too early. -/
def unexpectedEnd (expected : String) (position : Option Position) : CompileError :=
  unexpectedToken expected endOfInput position

/-- A token behind the class. -/
def trailingToken (found : String) (position : Option Position) : CompileError :=
  ⟨.parse, s!"unexpected {found} after end of class", some found, some endOfInput, position⟩

/-- A name that no scope declares. -/
def unresolvedName (name : String) (position : Option Position) : CompileError :=
  ⟨.nameResolution, s!"cannot resolve '{name}'", some name, none, position⟩

/-- A method call on a variable of a primitive type. -/
def notAnObject (name type : String) (position : Option Position) : CompileError :=
  ⟨.nameResolution, s!"'{name}' has type {type} and no methods", some name, none, position⟩

/-- A tree that no source text gives and no instructions render. -/
def unsupported (construct : String) (position : Option Position) : CompileError :=
  ⟨.unsupportedConstruct, s!"no code generation rule for {construct}", some construct, none,
    position⟩

/-- The error as one line: kind, wording and place. -/
def render (e : CompileError) : String :=
  match e.position with
  | some p => s!"{e.kind.text}: {e.message} at {p.render}"
  | none => s!"{e.kind.text}: {e.message}"

end CompileError

end JackCompiler
