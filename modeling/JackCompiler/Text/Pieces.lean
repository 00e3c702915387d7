/-!
# Cutting a text at a character

The pieces of a text are what stands between the places where a separator stands. There is one piece
more than there are separators, and joining the pieces with the separator gives the text back.
-/

namespace JackCompiler

/-- One step of cutting: the pieces so far and the piece under way, both last first. -/
def pieceStep (separator : Char) :
    List (List Char) × List Char → Char → List (List Char) × List Char
  | (done, piece), c => if c = separator then (piece.reverse :: done, []) else (done, c :: piece)

/-- The pieces of a text between separators. -/
def pieces (separator : Char) (s : List Char) : List (List Char) :=
  let (done, piece) := s.foldl (pieceStep separator) ([], [])
  (piece.reverse :: done).reverse

end JackCompiler
