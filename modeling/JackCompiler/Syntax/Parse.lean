import JackCompiler.Lexeme.Reader
import JackCompiler.Syntax.Step
/-!
# From tokens to trees

A tree is read by stepping from the state that wants it, one token after the other, until it is
complete or a token is refused. A refused token stays ahead, so reading can go on there.
-/

namespace JackCompiler

namespace State

variable {g : Goal}

/-- Steps through the tokens ahead: the tree or the error, the tokens left, and the last byte of
the token taken last. Where the tokens end, the error behind them counts before the end itself. -/
def run (failure : Option CompileError) :
    State g → List Token → Position → Except CompileError g.Tree × List Token × Position
  | s, [], last =>
    match failure with
    | some e => (.error e, [], last)
    | none =>
      match s.atEnd with
      | .ok tree => (.ok tree, [], last)
      | .error missing => (.error (.unexpectedEnd missing (some last)), [], last)
  | s, t :: rest, last =>
    match s.step t with
    | .next s' => run failure s' rest t.span.last
    | .complete tree true => (.ok tree, rest, t.span.last)
    | .complete tree false => (.ok tree, t :: rest, last)
    | .refuse e true => (.error e, rest, t.span.last)
    | .refuse e false => (.error e, t :: rest, last)

end State

namespace Reader

/-- Reads from a state on. -/
def readFrom {g : Goal} (s : State g) (r : Reader) : Except CompileError g.Tree × Reader :=
  match s.run r.failure r.ahead r.last with
  | (outcome, ahead, last) => (outcome, { r with ahead := ahead, last := last })

/-- Reads an expression. -/
def expression (r : Reader) : Except CompileError Expr × Reader :=
  r.readFrom (.operand .empty .alone)

/-- Reads a statement. -/
def statement (r : Reader) : Except CompileError Stmt × Reader :=
  r.readFrom (.statement .alone)

/-- Reads a class, behind which the text has to end. -/
def classTree (r : Reader) : Except CompileError ClassTree × Reader :=
  r.readFrom .classWord

/-- Checks that the text ends. -/
def finish (r : Reader) : Except CompileError Unit :=
  match r.lookahead with
  | .ok none => .ok ()
  | .ok (some t) => .error (.trailingToken t.describe (some t.position))
  | .error e => .error e

end Reader

/-- The tree of a source text. -/
def ClassTree.ofSource (source : String) : Except CompileError ClassTree :=
  (Reader.ofSource source).classTree.1

end JackCompiler
