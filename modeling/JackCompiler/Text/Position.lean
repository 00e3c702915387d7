/-!
# Places in a source text

A place counts lines and columns from one and bytes from zero; a column counts bytes, not
characters. Reading a text is a fold of `Position.next` over its bytes, so the place after a
text depends on nothing but the text. Lines and columns are numbers without a bound here; where they
are kept in words of 32 bits, this is the same for texts of fewer than 2³² bytes.
-/

namespace JackCompiler

/-- A place in a source text: the byte at `offset`, seen as line and column. -/
structure Position where
  line : Nat
  column : Nat
  offset : Nat
  deriving DecidableEq, Repr, Inhabited

namespace Position

/-- The byte that ends a line. -/
@[match_pattern] abbrev newline : UInt8 := 10

/-- The place of the first byte of a text. -/
def start : Position := ⟨1, 1, 0⟩

/-- The place behind one byte: a newline opens the next line. -/
def next (p : Position) (byte : UInt8) : Position :=
  if byte = newline then ⟨p.line + 1, 1, p.offset + 1⟩ else ⟨p.line, p.column + 1, p.offset + 1⟩

/-- The place behind a run of bytes. -/
def advance (p : Position) (bytes : List UInt8) : Position := bytes.foldl next p

/-- A place as it is written in messages. -/
def render (p : Position) : String := s!"line {p.line}, column {p.column}"

@[simp] theorem advance_nil (p : Position) : p.advance [] = p := rfl

@[simp] theorem advance_append (p : Position) (xs ys : List UInt8) :
    p.advance (xs ++ ys) = (p.advance xs).advance ys := by
  simp [advance]

end Position

/-- The places of the first and of the last byte of a lexeme. -/
structure Span where
  first : Position
  last : Position
  deriving DecidableEq, Repr, Inhabited

end JackCompiler
