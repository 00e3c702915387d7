/-!
# Instructions of the stack machine

The machine works on words of sixteen bits. It pushes from and pops into the slots of eight
segments, computes on the top of its stack, jumps to labels, and calls routines, which find their
arguments in a segment of their own. An instruction is written as words with a space between, and
read from words however far apart.
-/

namespace JackCompiler

/-- Where the slots of an instruction lie: numbers themselves, the locals and arguments of the
routine, the object and the array it works on, the places of these two, scratch cells, and the
static variables of the class. -/
inductive Segment
  | constant
  | locals
  | arguments
  | this
  | that
  | pointer
  | temp
  | statics
  deriving DecidableEq, Repr

namespace Segment

/-- The name of a segment. -/
def name : Segment → String
  | constant => "constant"
  | locals => "local"
  | arguments => "argument"
  | this => "this"
  | that => "that"
  | pointer => "pointer"
  | temp => "temp"
  | statics => "static"

/-- Every segment. -/
def all : List Segment := [constant, locals, arguments, this, that, pointer, temp, statics]

theorem mem_all (s : Segment) : s ∈ all := by cases s <;> decide

end Segment

/-- What the machine computes on the top of its stack. -/
inductive Operation
  | add | sub | neg | eq | gt | lt | and | or | not
  deriving DecidableEq, Repr

namespace Operation

/-- The command of an operation. -/
def name : Operation → String
  | add => "add"
  | sub => "sub"
  | neg => "neg"
  | eq => "eq"
  | gt => "gt"
  | lt => "lt"
  | and => "and"
  | or => "or"
  | not => "not"

/-- Every operation. -/
def all : List Operation := [add, sub, neg, eq, gt, lt, and, or, not]

theorem mem_all (o : Operation) : o ∈ all := by cases o <;> decide

end Operation

/-- One instruction. -/
inductive Instruction
  | push (segment : Segment) (slot : UInt16)
  | pop (segment : Segment) (slot : UInt16)
  | operate (operation : Operation)
  | label (name : String)
  | goto (name : String)
  | ifGoto (name : String)
  | function (name : String) (locals : UInt16)
  | call (name : String) (arguments : UInt16)
  | giveBack
  deriving DecidableEq, Repr

namespace Instruction

/-- The words of an instruction: its command and its operands. -/
def words : Instruction → List String
  | push segment slot => ["push", segment.name, toString slot]
  | pop segment slot => ["pop", segment.name, toString slot]
  | operate operation => [operation.name]
  | label name => ["label", name]
  | goto name => ["goto", name]
  | ifGoto name => ["if-goto", name]
  | function name locals => ["function", name, toString locals]
  | call name arguments => ["call", name, toString arguments]
  | giveBack => ["return"]

/-- The text of an instruction. -/
def text (i : Instruction) : String := String.intercalate " " i.words

/-- Whether the instruction opens a routine. -/
def opensRoutine : Instruction → Bool
  | function .. => true
  | _ => false

end Instruction

end JackCompiler
