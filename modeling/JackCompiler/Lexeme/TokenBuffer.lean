import JackCompiler.Lexeme.Reader
/-!
# A buffer of one token

A buffer reads the significant tokens of a text as they are asked for: it holds a scanner and at
most one token that the scanner has yielded and nobody has taken. An error of the scanner is kept
and given again on every later request. Whatever is asked, and in whichever order, the answers are
those of a `Reader` over the whole text.
-/

namespace JackCompiler

/-- A scanner, the token it has yielded ahead of time, the error it has met, and the last byte of
the token taken last. -/
structure TokenBuffer where
  scanner : Scanner
  held : Option Token
  failure : Option CompileError
  last : Position
  deriving DecidableEq, Repr

namespace Scanner

/-- The next significant token within a number of rounds, or the error met before it. -/
def significantWithin : Nat → Scanner → Except CompileError (Option Token) × Scanner
  | 0, s => (.ok none, s)
  | rounds + 1, s =>
    match s.next? with
    | none => (.ok none, s)
    | some (.error e, rest) => (.error e, rest)
    | some (.ok t, rest) =>
      if t.isTrivia then significantWithin rounds rest else (.ok (some t), rest)

/-- The next significant token; none at the end of the text. -/
def nextSignificant (s : Scanner) : Except CompileError (Option Token) × Scanner :=
  significantWithin s.unread.length s

end Scanner

namespace TokenBuffer

/-- A buffer with nothing read yet. -/
def ofScanner (s : Scanner) : TokenBuffer := ⟨s, none, none, Position.start⟩

/-- A buffer over a source text. -/
def ofSource (source : String) : TokenBuffer := ofScanner (Scanner.ofSource source)

/-- The next token, which the buffer holds from now on; none at the end of the text. -/
def lookahead (b : TokenBuffer) : Except CompileError (Option Token) × TokenBuffer :=
  match b.held, b.failure with
  | some t, _ => (.ok (some t), b)
  | none, some e => (.error e, b)
  | none, none =>
    match b.scanner.nextSignificant with
    | (.ok held, rest) => (.ok held, { b with scanner := rest, held := held })
    | (.error e, rest) => (.error e, { b with scanner := rest, failure := some e })

/-- Whether the end of the text is reached. -/
def isExhausted (b : TokenBuffer) : Except CompileError Bool × TokenBuffer :=
  (b.lookahead.1.map Option.isNone, b.lookahead.2)

/-- The next token; an error at the end of the text. -/
def peek (b : TokenBuffer) : Except CompileError Token × TokenBuffer :=
  match b.lookahead with
  | (.ok (some t), b) => (.ok t, b)
  | (.ok none, b) => (.error (.unexpectedEnd Reader.anyToken (some b.last)), b)
  | (.error e, b) => (.error e, b)

/-- Takes the next token. -/
def consume (b : TokenBuffer) : Except CompileError Token × TokenBuffer :=
  match b.peek with
  | (.ok t, b) => (.ok t, { b with held := none, last := t.span.last })
  | (.error e, b) => (.error e, b)

end TokenBuffer

end JackCompiler
