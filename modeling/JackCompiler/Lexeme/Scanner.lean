import JackCompiler.Lexeme.Automaton
import JackCompiler.Text.Blank
import JackCompiler.Text.CompileError
/-!
# Scanning a source text

A scanner cuts a text into lexemes, one round each. In a round all automata of the roster are
offered the same bytes; one that refuses a byte is out. The round ends at the byte that nobody
takes, or at the end of the text. Those who were still in at that byte are the finalists: all of
them have taken the same bytes, so of those that close over them the one of highest rank wins, and
of equals the one that stands first in the roster. Where nobody closes, the text is refused.

        byte ──▶ somebody takes it?  ──yes──▶ the others are out, next byte
                 │ no
                 ▼
            a finalist closes?       ──yes──▶ token, next round at this byte
                 │ no
                 ▼
            the text is refused here
-/

namespace JackCompiler

/-- The end of a round: the automata still in, and the number of bytes they have taken. -/
structure Round where
  finalists : List Automaton
  length : Nat
  deriving DecidableEq, Repr

namespace Round

/-- Plays a round to its end. -/
def play : Round → List UInt8 → Round
  | r, [] => r
  | r, byte :: rest =>
    match r.finalists.filterMap (·.feed byte) with
    | [] => r
    | a :: survivors => play ⟨a :: survivors, r.length + 1⟩ rest

/-- Of two kinds the one of higher rank; of equals the first. -/
def prefer (best : Option TokenKind) (kind : TokenKind) : Option TokenKind :=
  match best with
  | none => some kind
  | some b => if b.rank < kind.rank then some kind else some b

/-- The kind of the lexeme that the round has found. -/
def winner (r : Round) : Option TokenKind :=
  if r.length = 0 then none else (r.finalists.filterMap (·.close)).foldl prefer none

end Round

/-- A text being cut into lexemes: the roster, what is not read yet, and the place of that. A
refused text yields nothing more. -/
structure Scanner where
  roster : List Automaton
  unread : List UInt8
  position : Position
  refused : Bool
  deriving DecidableEq, Repr

namespace Scanner

/-- Bytes that an error quotes behind the byte that ended the round. -/
def contextLength : Nat := 10

/-- The text of a lexeme; of a string constant, what stands between the quotes. -/
def valueOf (kind : TokenKind) (lexeme : List UInt8) : String :=
  String.ofList (Utf8.decode (if kind = .stringConstant then (lexeme.drop 1).dropLast else lexeme))

/-- A scanner with a roster of its own. -/
def withRoster (roster : List Automaton) (source : String) : Scanner :=
  ⟨roster.map Automaton.reset, Utf8.bytes source, Position.start, false⟩

/-- A scanner for source texts. -/
def ofSource (source : String) : Scanner := withRoster Automaton.standard source

/-- Plays the round at the first unread byte. -/
def round (s : Scanner) : Round := Round.play ⟨s.roster, 0⟩ s.unread

/-- The token over the first `length` unread bytes, and the scanner behind it. -/
def take (s : Scanner) (kind : TokenKind) (length : Nat) : Token × Scanner :=
  let lexeme := s.unread.take length
  let last := s.position.advance lexeme.dropLast
  (⟨kind, valueOf kind lexeme, ⟨s.position, last⟩⟩,
    { s with unread := s.unread.drop length, position := s.position.advance lexeme })

/-- What an error quotes: the bytes of the round, the byte that ended it and ten more, not past the
end of the line, and without blanks at its end. -/
def fragment (s : Scanner) (length : Nat) : String :=
  let context := ((s.unread.drop length).take (contextLength + 1)).takeWhile (· ≠ Position.newline)
  String.ofList (trimEnd (Utf8.decode (s.unread.take length ++ context)))

/-- The next token or the error that refuses the text, and the scanner behind it; none at the end
of the text and behind an error. -/
def next? (s : Scanner) : Option (Except CompileError Token × Scanner) :=
  if s.refused || s.unread.isEmpty then none
  else
    let r := s.round
    match r.winner with
    | some kind =>
      let (token, rest) := s.take kind r.length
      some (.ok token, rest)
    | none =>
      some (.error (.unrecognizedInput (s.fragment r.length) (some s.position)),
        { s with refused := true })

end Scanner

/-- What a scanner yields: the tokens, the error that ended them if there is one, and the scanner
afterwards. -/
structure Scan where
  tokens : List Token
  error : Option CompileError
  rest : Scanner
  deriving DecidableEq, Repr

namespace Scanner

/-- Yields for a number of rounds, `done` being the tokens before them, last first. -/
def runFor : Nat → Scanner → List Token → Scan
  | 0, s, done => ⟨done.reverse, none, s⟩
  | rounds + 1, s, done =>
    match s.next? with
    | none => ⟨done.reverse, none, s⟩
    | some (.error e, rest) => ⟨done.reverse, some e, rest⟩
    | some (.ok token, rest) => runFor rounds rest (token :: done)

/-- Yields all there is. A round that finds a token takes a byte, so there are no more rounds than
bytes. -/
def run (s : Scanner) : Scan := runFor s.unread.length s []

end Scanner

/-- The tokens of a source text, or its first error. -/
def tokenize (source : String) : Except CompileError (List Token) :=
  let scan := (Scanner.ofSource source).run
  match scan.error with
  | none => .ok scan.tokens
  | some e => .error e

end JackCompiler
