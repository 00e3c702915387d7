import JackCompiler.Stack.Instruction
import JackCompiler.Text.Blank
import JackCompiler.Text.Decimal
/-!
# Reading instructions

An instruction is read from its words. Of several faults the first of these counts: the command is
unknown, the number of operands is wrong, the segment is unknown, the number is no word, and a
value is popped into a constant.
-/

namespace JackCompiler

/-- Why words are no instruction. -/
inductive InstructionError
  | unknownCommand (command : String)
  | unknownSegment (name : String)
  | invalidOperand (command operand : String)
  | operandCount (command : String) (expected found : Nat)
  | popConstant
  deriving DecidableEq, Repr

/-- The wording of an error. -/
def InstructionError.message : InstructionError → String
  | unknownCommand command => s!"unknown command '{command}'"
  | unknownSegment name => s!"unknown segment '{name}'"
  | invalidOperand command operand => s!"invalid operand '{operand}' for '{command}'"
  | operandCount command expected found =>
    s!"'{command}' takes {expected} operand(s), found {found}"
  | popConstant => "cannot pop into the constant segment"

/-- The segment of a name. -/
def Segment.ofName (name : String) : Except InstructionError Segment :=
  match Segment.all.find? (·.name = name) with
  | some s => .ok s
  | none => .error (.unknownSegment name)

/-- The operation of a command. -/
def Operation.ofName? (name : String) : Option Operation :=
  Operation.all.find? (·.name = name)

namespace Instruction

/-- The word that an operand denotes. -/
def operandWord (command operand : String) : Except InstructionError UInt16 :=
  match Decimal.word? operand.toList with
  | some n => .ok n
  | none => .error (.invalidOperand command operand)

/-- A command with a segment and a slot. -/
def readAccess (command : String) (make : Segment → UInt16 → Except InstructionError Instruction) :
    List String → Except InstructionError Instruction
  | [segment, slot] => do
    let s ← Segment.ofName segment
    let n ← operandWord command slot
    make s n
  | operands => .error (.operandCount command 2 operands.length)

/-- A command with the name of a label. -/
def readJump (command : String) (make : String → Instruction) :
    List String → Except InstructionError Instruction
  | [name] => .ok (make name)
  | operands => .error (.operandCount command 1 operands.length)

/-- A command with the name of a routine and a number. -/
def readRoutine (command : String) (make : String → UInt16 → Instruction) :
    List String → Except InstructionError Instruction
  | [name, number] => do
    let n ← operandWord command number
    return make name n
  | operands => .error (.operandCount command 2 operands.length)

/-- A command without operands. -/
def readPlain (command : String) (i : Instruction) :
    List String → Except InstructionError Instruction
  | [] => .ok i
  | operands => .error (.operandCount command 0 operands.length)

/-- A value is popped into a slot that can hold one. -/
def popInto (segment : Segment) (slot : UInt16) : Except InstructionError Instruction :=
  if segment = .constant then .error .popConstant else .ok (pop segment slot)

/-- The instruction of a command and its operands. -/
def ofCommand (command : String) (operands : List String) : Except InstructionError Instruction :=
  if command = "push" then readAccess command (fun s n => .ok (push s n)) operands
  else if command = "pop" then readAccess command popInto operands
  else if command = "label" then readJump command label operands
  else if command = "goto" then readJump command goto operands
  else if command = "if-goto" then readJump command ifGoto operands
  else if command = "function" then readRoutine command function operands
  else if command = "call" then readRoutine command call operands
  else if command = "return" then readPlain command giveBack operands
  else
    match Operation.ofName? command with
    | some o => readPlain command (operate o) operands
    | none => .error (.unknownCommand command)

/-- The instruction of some words. No words are an empty command. -/
def ofWords : List String → Except InstructionError Instruction
  | [] => ofCommand "" []
  | command :: operands => ofCommand command operands

/-- The words of a line of text. -/
def wordsOf (line : List Char) : List String := (JackCompiler.words line).map String.ofList

/-- Reads an instruction from a line of text. -/
def parse (line : String) : Except InstructionError Instruction := ofWords (wordsOf line.toList)

end Instruction

end JackCompiler
