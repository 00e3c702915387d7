import JackCompiler.Names.Scope
import JackCompiler.Text.CompileError
import JackCompiler.Text.Decoding
/-!
# Instructions for expressions

The instructions of an expression push its value and leave the rest of the stack alone. Operands are
pushed from left to right, a receiver in front of the arguments. Truth is the word of all ones. A
string is made byte by byte, and multiplication and division are calls.
-/

namespace JackCompiler

/-- The routine that code is generated for: the name of its class, and what it sees. -/
structure Site where
  className : String
  scope : Scope
  deriving DecidableEq, Repr

/-- What generation gives: a value, or the reason for refusing the class. -/
abbrev Generated (α : Type) := Except CompileError α

/-- The name of a routine of a class. -/
def qualified (className routine : String) : String := s!"{className}.{routine}"

/-- Whether values of the type are no objects. -/
def isPrimitive (typeName : String) : Bool :=
  typeName = "int" ∨ typeName = "char" ∨ typeName = "boolean"

/-- The longest string that can be made. -/
def longestString : Nat := 65535

/-- Pushes a number. -/
def pushConstant (n : UInt16) : Instruction := .push .constant n

/-- Pushes the object that the routine works on. -/
def pushObject : Instruction := .push .pointer 0

/-- Calls a routine with the arguments on the stack. Their number is a word. -/
def callWith (name : String) (arguments : Nat) : Instruction :=
  .call name (UInt16.ofNat arguments)

/-- The instruction between two operands. -/
def BinaryOp.instruction : BinaryOp → Instruction
  | add => .operate .add
  | subtract => .operate .sub
  | multiply => .call "Math.multiply" 2
  | divide => .call "Math.divide" 2
  | and => .operate .and
  | or => .operate .or
  | less => .operate .lt
  | greater => .operate .gt
  | equal => .operate .eq

/-- The instruction behind one operand. -/
def UnaryOp.instruction : UnaryOp → Instruction
  | negate => .operate .neg
  | not => .operate .not

/-- Takes the address of an element off the stack, and makes the element `that 0`. -/
def selectElement : List Instruction := [.operate .add, .pop .pointer 1]

/-- Makes a string: an empty one of the length needed, then one call for each byte. -/
def stringCode (value : String) : Generated (List Instruction) :=
  if value.utf8ByteSize ≤ longestString then
    .ok (pushConstant (UInt16.ofNat value.utf8ByteSize) :: .call "String.new" 1 ::
      (Utf8.bytes value).flatMap fun byte =>
        [pushConstant byte.toUInt16, .call "String.appendChar" 2])
  else .error (.unsupported "string constant longer than a word" none)

namespace Site

/-- The variable that a name stands for. -/
def lookup (site : Site) (name : String) (position : Option Position) : Generated Variable :=
  match site.scope.resolve name with
  | some v => .ok v
  | none => .error (.unresolvedName name position)

/-- Pushes the object that the routine works on; a function works on none. -/
def receiver (site : Site) (position : Option Position) : Generated Instruction :=
  if site.scope.kind.hasReceiver then .ok pushObject
  else .error (.unresolvedName "this" position)

end Site

mutual

/-- The instructions that push the value of an expression. -/
def Expr.code (site : Site) : Expr → Generated (List Instruction)
  | .constant value _ => .ok [pushConstant value]
  | .boolean value => .ok (if value then [pushConstant 0, .operate .not] else [pushConstant 0])
  | .string value => stringCode value
  | .null => .ok [pushConstant 0]
  | .this position => do
    let object ← site.receiver position
    return [object]
  | .reference name position => do
    let v ← site.lookup name position
    return [v.push]
  | .binary op left right _ => do
    let a ← left.code site
    let b ← right.code site
    return a ++ b ++ [op.instruction]
  | .unary op operand => do
    let a ← operand.code site
    return a ++ [op.instruction]
  | .call name arguments _ => do
    let a ← argumentsCode site arguments
    let routine := qualified site.className name
    if site.scope.kind.hasReceiver then
      return pushObject :: a ++ [callWith routine (arguments.length + 1)]
    else return a ++ [callWith routine arguments.length]
  | .methodCall (.this position) name arguments _ => do
    let object ← site.receiver position
    let a ← argumentsCode site arguments
    return object :: a ++ [callWith (qualified site.className name) (arguments.length + 1)]
  | .methodCall (.reference object position) name arguments _ =>
    match site.scope.resolve object with
    | some v =>
      if isPrimitive v.typeName then .error (.notAnObject object v.typeName position)
      else do
        let a ← argumentsCode site arguments
        return v.push :: a ++ [callWith (qualified v.typeName name) (arguments.length + 1)]
    | none => do
      let a ← argumentsCode site arguments
      return a ++ [callWith (qualified object name) arguments.length]
  | .methodCall _ _ _ position => .error (.unsupported "method call on a computed receiver" position)
  | .index target subscript => do
    let a ← target.code site
    let b ← subscript.code site
    return a ++ b ++ selectElement ++ [.push .that 0]

/-- The instructions that push the values of some expressions, the first at the bottom. -/
def argumentsCode (site : Site) : List Expr → Generated (List Instruction)
  | [] => .ok []
  | e :: es => do
    let a ← e.code site
    let b ← argumentsCode site es
    return a ++ b

end

end JackCompiler
