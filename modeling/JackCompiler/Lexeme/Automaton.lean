import JackCompiler.Lexeme.Token
import JackCompiler.Text.Decoding
/-!
# Automata for the classes of lexemes

One automaton per class of lexemes: runs of blanks, line comments, block comments, identifiers,
integers, strings, and one fixed spelling. An automaton is offered one byte at a time; it takes the
byte if what it has taken and the byte open some lexeme of its class, and otherwise it stays as it
is. It closes when what it has taken is a lexeme.

        block comment:   / ──▶ slash ──*──▶ body ──*──▶ star ──/──▶ closed   (closes)
                                            ↺ other     ↺ *
                                            ▲───other────┘
-/

namespace JackCompiler

/-- A letter of the alphabet without accents, or an underscore. -/
def isNameStart (byte : UInt8) : Bool :=
  (65 ≤ byte && byte ≤ 90) || (97 ≤ byte && byte ≤ 122) || byte == 95

/-- A decimal digit. -/
def isDigitByte (byte : UInt8) : Bool := 48 ≤ byte && byte ≤ 57

/-- What follows the first byte of a name. -/
def isNameRest (byte : UInt8) : Bool := isNameStart byte || isDigitByte byte

/-- Space, tab, newline and carriage return. -/
def isSpaceByte (byte : UInt8) : Bool := byte == 32 || byte == 9 || byte == 10 || byte == 13

/-- How far a line comment is read. -/
inductive LineComment
  | start | slash | body | terminated
  deriving DecidableEq, Repr

/-- Two slashes, anything but newlines, and the newline if the text goes on that far. -/
def LineComment.step : LineComment → UInt8 → Option LineComment
  | start, 47 => some slash
  | slash, 47 => some body
  | body, 10 => some terminated
  | body, _ => some body
  | _, _ => none

/-- How far a block comment is read. -/
inductive BlockComment
  | start | slash | body | star | closed
  deriving DecidableEq, Repr

/-- A slash and a star, and all up to the next star and slash. -/
def BlockComment.step : BlockComment → UInt8 → Option BlockComment
  | start, 47 => some slash
  | slash, 42 => some body
  | body, 42 => some star
  | body, _ => some body
  | star, 47 => some closed
  | star, 42 => some star
  | star, _ => some body
  | _, _ => none

/-- How far a string is read. -/
inductive Quotation
  | start | opened | closed
  deriving DecidableEq, Repr

/-- A quote, anything but newlines, and the next quote. -/
def Quotation.step : Quotation → UInt8 → Option Quotation
  | start, 34 => some opened
  | opened, 34 => some closed
  | opened, 10 => none
  | opened, _ => some opened
  | _, _ => none

/-- How far a lexeme of some class is read. -/
inductive Progress
  | whitespace (begun : Bool)
  | lineComment (stage : LineComment)
  | blockComment (stage : BlockComment)
  | identifier (begun : Bool)
  | integer (begun : Bool)
  | quotation (stage : Quotation)
  | literal (spelling : List UInt8) (kind : TokenKind) (due : List UInt8)
  deriving DecidableEq, Repr

namespace Progress

/-- The progress with one more byte, unless no lexeme of the class goes on like that. -/
def step : Progress → UInt8 → Option Progress
  | whitespace _, b => if isSpaceByte b then some (whitespace true) else none
  | lineComment s, b => (s.step b).map lineComment
  | blockComment s, b => (s.step b).map blockComment
  | identifier false, b => if isNameStart b then some (identifier true) else none
  | identifier true, b => if isNameRest b then some (identifier true) else none
  | integer _, b => if isDigitByte b then some (integer true) else none
  | quotation s, b => (s.step b).map quotation
  | literal _ _ [], _ => none
  | literal spelling kind (d :: due), b => if b = d then some (literal spelling kind due) else none

/-- The kind of the lexeme read, if it is whole. -/
def close : Progress → Option TokenKind
  | whitespace true => some .whitespace
  | lineComment .body | lineComment .terminated => some .comment
  | blockComment .closed => some .comment
  | identifier true => some .identifier
  | integer true => some .integerConstant
  | quotation .closed => some .stringConstant
  | literal _ kind [] => some kind
  | _ => none

/-- Nothing read yet. -/
def restart : Progress → Progress
  | whitespace _ => whitespace false
  | lineComment _ => lineComment .start
  | blockComment _ => blockComment .start
  | identifier _ => identifier false
  | integer _ => integer false
  | quotation _ => quotation .start
  | literal spelling kind _ => literal spelling kind spelling

end Progress

/-- The progress of one class of lexemes, and the number of bytes taken. -/
structure Automaton where
  progress : Progress
  consumed : Nat
  deriving DecidableEq, Repr

namespace Automaton

/-- The automaton for runs of blanks. -/
def whitespace : Automaton := ⟨.whitespace false, 0⟩

/-- The automaton for comments up to the end of a line. -/
def lineComment : Automaton := ⟨.lineComment .start, 0⟩

/-- The automaton for comments between a slash and a star and a star and a slash. -/
def blockComment : Automaton := ⟨.blockComment .start, 0⟩

/-- The automaton for names. -/
def identifier : Automaton := ⟨.identifier false, 0⟩

/-- The automaton for runs of digits. -/
def integer : Automaton := ⟨.integer false, 0⟩

/-- The automaton for strings. -/
def quotation : Automaton := ⟨.quotation .start, 0⟩

/-- The automaton for one spelling. -/
def literal (spelling : String) (kind : TokenKind) : Automaton :=
  let bytes := Utf8.bytes spelling
  ⟨.literal bytes kind bytes, 0⟩

/-- The automaton for a reserved word. -/
def keyword (k : Keyword) : Automaton := literal k.text (.keyword k)

/-- The automaton for a symbol. -/
def symbol (s : Symbol) : Automaton := literal s.text (.symbol s)

/-- The automaton with one more byte taken; none if it refuses the byte. -/
def feed (a : Automaton) (byte : UInt8) : Option Automaton :=
  (a.progress.step byte).map fun p => ⟨p, a.consumed + 1⟩

/-- Offers a byte: whether it is taken, and the automaton afterwards. A refused byte changes
nothing. -/
def offer (a : Automaton) (byte : UInt8) : Bool × Automaton :=
  match a.feed byte with
  | some b => (true, b)
  | none => (false, a)

/-- Offers one byte after the other. -/
def offerAll (a : Automaton) (bytes : List UInt8) : List Bool × Automaton :=
  let (taken, b) := bytes.foldl
    (fun (taken, b) byte => let (t, b') := b.offer byte; (t :: taken, b')) ([], a)
  (taken.reverse, b)

/-- The kind of the lexeme taken, if it is whole. -/
def close (a : Automaton) : Option TokenKind := a.progress.close

/-- The automaton with nothing taken. -/
def reset (a : Automaton) : Automaton := ⟨a.progress.restart, 0⟩

/-- The automata that read source texts: one for every class of lexemes. -/
def standard : List Automaton :=
  [whitespace, lineComment, blockComment, identifier, integer, quotation] ++
    Keyword.all.map keyword ++ Symbol.all.map symbol

end Automaton

end JackCompiler
