import JackCompiler.Lexeme.Scanner
/-!
# Reading tokens

A reader holds the significant tokens of a text that are still ahead, the error that stands behind
them if the text is refused, and the place of the last byte taken. Only `consume` moves it, and by
one token. At the error it stays, whatever is asked.
-/

namespace JackCompiler

/-- The tokens ahead, the error behind them, and the last byte of the token taken last. -/
structure Reader where
  ahead : List Token
  failure : Option CompileError
  last : Position
  deriving DecidableEq, Repr

namespace Reader

/-- What is named as expected where any token would do. -/
def anyToken : String := "a token"

/-- The tokens that are no trivia. -/
def significant (tokens : List Token) : List Token := tokens.filter (!·.isTrivia)

/-- Everything that a scanner yields, trivia apart. -/
def ofScanner (s : Scanner) : Reader :=
  let scan := s.run
  ⟨significant scan.tokens, scan.error, Position.start⟩

/-- The tokens of a source text. -/
def ofSource (source : String) : Reader := ofScanner (Scanner.ofSource source)

/-- The next token; none at the end of the text. -/
def lookahead (r : Reader) : Except CompileError (Option Token) :=
  match r.ahead, r.failure with
  | t :: _, _ => .ok (some t)
  | [], none => .ok none
  | [], some e => .error e

/-- Whether the end of the text is reached. -/
def isExhausted (r : Reader) : Except CompileError Bool :=
  r.lookahead.map Option.isNone

/-- The next token; an error at the end of the text. -/
def peek (r : Reader) : Except CompileError Token :=
  match r.lookahead with
  | .ok (some t) => .ok t
  | .ok none => .error (.unexpectedEnd anyToken (some r.last))
  | .error e => .error e

/-- Takes the next token. -/
def consume (r : Reader) : Except CompileError Token × Reader :=
  match r.ahead with
  | t :: rest => (.ok t, { r with ahead := rest, last := t.span.last })
  | [] => (r.peek, r)

end Reader

end JackCompiler
