import JackCompiler.Text.Position
/-!
# The vocabulary of source texts

Keywords, symbols, the kinds of token, and tokens. A kind has a rank, which decides between two
kinds that fit the same lexeme: a reserved word beats an identifier.
-/

namespace JackCompiler

/-- The reserved words. -/
inductive Keyword
  | class_ | constructor | function | method | field | static | var
  | int | char | boolean | void
  | true_ | false_ | null | this
  | let_ | do_ | if_ | else_ | while_ | return_
  deriving DecidableEq, Repr

namespace Keyword

/-- The spelling of a reserved word. -/
def text : Keyword → String
  | class_ => "class"
  | constructor => "constructor"
  | function => "function"
  | method => "method"
  | field => "field"
  | static => "static"
  | var => "var"
  | int => "int"
  | char => "char"
  | boolean => "boolean"
  | void => "void"
  | true_ => "true"
  | false_ => "false"
  | null => "null"
  | this => "this"
  | let_ => "let"
  | do_ => "do"
  | if_ => "if"
  | else_ => "else"
  | while_ => "while"
  | return_ => "return"

/-- Every reserved word: declarations, types, values, statements. -/
def all : List Keyword :=
  [class_, constructor, function, method, field, static, var, int, char, boolean, void,
    true_, false_, null, this, let_, do_, if_, else_, while_, return_]

theorem mem_all (k : Keyword) : k ∈ all := by cases k <;> decide

end Keyword

/-- The punctuation marks and operators. -/
inductive Symbol
  | openBrace | closeBrace | openParen | closeParen | openBracket | closeBracket
  | dot | comma | semicolon
  | plus | minus | star | slash | ampersand | bar | less | greater | equal | tilde
  deriving DecidableEq, Repr

namespace Symbol

/-- The spelling of a symbol. -/
def text : Symbol → String
  | openBrace => "\x7b"
  | closeBrace => "\x7d"
  | openParen => "("
  | closeParen => ")"
  | openBracket => "["
  | closeBracket => "]"
  | dot => "."
  | comma => ","
  | semicolon => ";"
  | plus => "+"
  | minus => "-"
  | star => "*"
  | slash => "/"
  | ampersand => "&"
  | bar => "|"
  | less => "<"
  | greater => ">"
  | equal => "="
  | tilde => "~"

/-- Every symbol: brackets, separators, operators. -/
def all : List Symbol :=
  [openBrace, closeBrace, openParen, closeParen, openBracket, closeBracket, dot, comma, semicolon,
    plus, minus, star, slash, ampersand, bar, less, greater, equal, tilde]

theorem mem_all (s : Symbol) : s ∈ all := by cases s <;> decide

end Symbol

/-- What a lexeme is. -/
inductive TokenKind
  | identifier
  | integerConstant
  | stringConstant
  | keyword (k : Keyword)
  | symbol (s : Symbol)
  | whitespace
  | comment
  deriving DecidableEq, Repr

namespace TokenKind

/-- Of two kinds that fit a lexeme the one of higher rank is meant. -/
def rank : TokenKind → Nat
  | keyword _ => 5
  | symbol _ => 4
  | integerConstant | stringConstant => 3
  | identifier => 2
  | comment => 1
  | whitespace => 0

/-- Whether lexemes of this kind only set others apart. -/
def isTrivia : TokenKind → Bool
  | whitespace | comment => true
  | _ => false

/-- The kind as it is named in messages. -/
def describe : TokenKind → String
  | identifier => "identifier"
  | integerConstant => "integer constant"
  | stringConstant => "string constant"
  | keyword k => s!"'{k.text}'"
  | symbol s => s!"'{s.text}'"
  | whitespace => "whitespace"
  | comment => "comment"

end TokenKind

/-- A lexeme with its kind and place. The value is the text of the lexeme; that of a string
constant leaves out the quotes. -/
structure Token where
  kind : TokenKind
  value : String
  span : Span
  deriving DecidableEq, Repr

namespace Token

/-- The place of the first byte. -/
def position (t : Token) : Position := t.span.first

/-- Whether the token is whitespace or a comment. -/
def isTrivia (t : Token) : Bool := t.kind.isTrivia

/-- The token as it is named in messages. -/
def describe (t : Token) : String :=
  match t.kind with
  | .identifier | .integerConstant => s!"{t.kind.describe} '{t.value}'"
  | .stringConstant => s!"{t.kind.describe} \"{t.value}\""
  | _ => t.kind.describe

end Token

end JackCompiler
