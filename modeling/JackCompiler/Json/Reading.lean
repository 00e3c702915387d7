/-!
# Reading JSON from the front of a text

A reading takes a value from the front of a text and leaves the rest, or says what is wrong. The
first fault from the left counts: a text that ends too early is told from one that is no JSON, and
from JSON of another shape than the one asked for.
-/

namespace JackCompiler.Json

/-- Why a text is not what is asked for. -/
inductive Fault
  /-- The text is no JSON. -/
  | malformed
  /-- The text is JSON of another shape. -/
  | mismatch
  /-- The text ends too early. -/
  | truncated
  deriving DecidableEq, Repr

/-- Takes a value from the front of a text. -/
abbrev Reading := StateT (List Char) (Except Fault)

/-- Whether a character may stand between the parts of a value. -/
def isBlank (c : Char) : Bool := c = ' ' || c = '\n' || c = '\t' || c = '\r'

namespace Reading

/-- Takes the next character. -/
def next : Reading Char
  | [] => .error .truncated
  | c :: rest => .ok (c, rest)

/-- The next character behind blanks. It is not taken. -/
def front : Reading Char := fun text =>
  match text.dropWhile isBlank with
  | [] => .error .truncated
  | c :: rest => .ok (c, c :: rest)

/-- Takes the next character if it is a given one. -/
def accept (c : Char) : Reading Bool
  | [] => .ok (false, [])
  | d :: rest => if d = c then .ok (true, rest) else .ok (false, d :: rest)

/-- Takes the next character behind blanks, which is a given one. -/
def expect (c : Char) : Reading Unit := do
  if (← front) = c then let _ ← next else throw .malformed

/-- Takes given characters. -/
def word : List Char → Reading Unit
  | [] => pure ()
  | c :: rest => do
    if (← next) = c then word rest else throw .malformed

/-- The words that are values, by their first letters. -/
def wordFrom? : Char → Option (List Char)
  | 'n' => some ['n', 'u', 'l', 'l']
  | 't' => some ['t', 'r', 'u', 'e']
  | 'f' => some ['f', 'a', 'l', 's', 'e']
  | _ => none

/-- Blanks up to the end. -/
def finish : Reading Unit := fun text =>
  match text.dropWhile isBlank with
  | [] => .ok ((), [])
  | _ :: _ => .error .malformed

/-- Reads a text as a whole. -/
def whole {α : Type} (reading : Reading α) (text : String) : Except Fault α := do
  let (value, rest) ← reading text.toList
  let _ ← finish rest
  return value

end Reading

end JackCompiler.Json
