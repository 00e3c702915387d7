import JackCompiler.Stack.Reading
import JackCompiler.Text.Pieces
/-!
# Chunks of instructions

A chunk is a sequence of instructions, written one to a line. When a chunk is read, two slashes open
a comment up to the end of the line, and lines without words are left out.
-/

namespace JackCompiler

/-- A sequence of instructions. -/
structure Chunk where
  instructions : List Instruction
  deriving DecidableEq, Repr

namespace Chunk

/-- The chunk without instructions. -/
def empty : Chunk := ⟨[]⟩

/-- The chunk with more instructions at its end. -/
def extend (c : Chunk) (more : List Instruction) : Chunk := ⟨c.instructions ++ more⟩

/-- The chunk with one more instruction at its end. -/
def emit (c : Chunk) (i : Instruction) : Chunk := c.extend [i]

/-- Moves the instructions of the second chunk to the end of the first, and leaves it empty. -/
def moveOnto (c d : Chunk) : Chunk × Chunk := (c.extend d.instructions, empty)

/-- The number of instructions. -/
def count (c : Chunk) : Nat := c.instructions.length

/-- The number of routines that the chunk opens. -/
def routineCount (c : Chunk) : Nat := c.instructions.countP (·.opensRoutine)

/-- Whether there are no instructions. -/
def isEmpty (c : Chunk) : Bool := c.instructions.isEmpty

/-- The instructions as lines of text. -/
def lines (c : Chunk) : List String := c.instructions.map (·.text)

/-- The text of a chunk: every line ends with a newline. -/
def text (c : Chunk) : String := String.join (c.lines.map (· ++ "\n"))

/-- Cuts a comment off, with the text in front of it last first. -/
def cutComment : List Char → List Char → List Char
  | before, [] => before.reverse
  | before, '/' :: '/' :: _ => before.reverse
  | before, c :: rest => cutComment (c :: before) rest

/-- Reads lines from a number on, with the instructions before them last first. The error comes with
the number of its line. -/
def readLines : Nat → List (List Char) → List Instruction →
    Except (Nat × InstructionError) (List Instruction)
  | _, [], done => .ok done.reverse
  | number, line :: rest, done =>
    match Instruction.wordsOf (cutComment [] line) with
    | [] => readLines (number + 1) rest done
    | word :: more =>
      match Instruction.ofWords (word :: more) with
      | .ok i => readLines (number + 1) rest (i :: done)
      | .error e => .error (number, e)

/-- Reads a chunk. The error comes with the number of its line, counted from one. A return in front
of a newline is a blank at the end of its line. -/
def parse (text : String) : Except (Nat × InstructionError) Chunk :=
  (readLines 1 (pieces '\n' text.toList) []).map Chunk.mk

end Chunk

end JackCompiler
