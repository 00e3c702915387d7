import JackCompiler.Lexeme.Token
/-!
# Syntax trees

The tree of a class: declarations of variables, and routines whose bodies are lists of statements
over expressions. Parentheses leave no node. A node that can be blamed for an error records a
place; a tree made by hand may leave it out.
-/

namespace JackCompiler

/-- The type of a variable or of a result. -/
inductive JackType
  | int
  | char
  | boolean
  | void
  | named (name : String)
  deriving DecidableEq, Repr

namespace JackType

/-- The name of a type. -/
def name : JackType → String
  | int => "int"
  | char => "char"
  | boolean => "boolean"
  | void => "void"
  | named n => n

end JackType

/-- The operators between two operands. All bind equally. -/
inductive BinaryOp
  | add | subtract | multiply | divide | and | or | less | greater | equal
  deriving DecidableEq, Repr

namespace BinaryOp

/-- The spelling of an operator. -/
def text : BinaryOp → String
  | add => "+"
  | subtract => "-"
  | multiply => "*"
  | divide => "/"
  | and => "&"
  | or => "|"
  | less => "<"
  | greater => ">"
  | equal => "="

end BinaryOp

/-- The operator between operands that a symbol stands for. -/
def Symbol.binaryOp? : Symbol → Option BinaryOp
  | plus => some .add
  | minus => some .subtract
  | star => some .multiply
  | slash => some .divide
  | ampersand => some .and
  | bar => some .or
  | less => some .less
  | greater => some .greater
  | equal => some .equal
  | _ => none

/-- The operators in front of an operand. -/
inductive UnaryOp
  | negate | not
  deriving DecidableEq, Repr

namespace UnaryOp

/-- The spelling of an operator. -/
def text : UnaryOp → String
  | negate => "-"
  | not => "~"

end UnaryOp

/-- The operator in front of an operand that a symbol stands for. -/
def Symbol.unaryOp? : Symbol → Option UnaryOp
  | minus => some .negate
  | tilde => some .not
  | _ => none

/-- An expression. -/
inductive Expr
  | constant (value : UInt16) (position : Option Position)
  | boolean (value : Bool)
  | string (value : String)
  | null
  | this (position : Option Position)
  | reference (name : String) (position : Option Position)
  | binary (op : BinaryOp) (left right : Expr) (position : Option Position)
  | unary (op : UnaryOp) (operand : Expr)
  | call (name : String) (arguments : List Expr) (position : Option Position)
  | methodCall (receiver : Expr) (name : String) (arguments : List Expr)
      (position : Option Position)
  | index (target subscript : Expr)
  deriving Repr

/-- The place of an expression, where one is recorded. -/
def Expr.position : Expr → Option Position
  | constant _ p | this p | reference _ p | binary _ _ _ p | call _ _ p | methodCall _ _ _ p => p
  | unary _ operand => operand.position
  | index target _ => target.position
  | boolean _ | string _ | null => none

/-- Variables declared together. -/
structure Declaration where
  type : JackType
  names : List String
  position : Option Position
  deriving DecidableEq, Repr

/-- A statement. -/
inductive Stmt
  | declare (declaration : Declaration)
  | assign (name : String) (value : Expr) (position : Option Position)
  | assignElement (name : String) (subscript value : Expr) (position : Option Position)
  | ifThen (condition : Expr) (body : List Stmt)
  | ifElse (condition : Expr) (body alternative : List Stmt)
  | repeatWhile (condition : Expr) (body : List Stmt)
  | perform (call : Expr) (position : Option Position)
  | giveBack (value : Option Expr) (position : Option Position)
  deriving Repr

/-- Whether a routine works on an object, and where that comes from. -/
inductive RoutineKind
  | function
  | method
  | constructor
  deriving DecidableEq, Repr

namespace RoutineKind

/-- The reserved word for a kind of routine. -/
def text : RoutineKind → String
  | function => "function"
  | method => "method"
  | constructor => "constructor"

/-- Whether the routine works on an object. -/
def hasReceiver : RoutineKind → Bool
  | function => false
  | _ => true

end RoutineKind

/-- A parameter of a routine. -/
structure Parameter where
  type : JackType
  name : String
  position : Option Position
  deriving DecidableEq, Repr

/-- A function, method or constructor. -/
structure Routine where
  kind : RoutineKind
  returnType : JackType
  name : String
  parameters : List Parameter
  body : List Stmt
  position : Option Position
  deriving Repr

/-- What a class declares: variables shared by all objects, variables of each object, routines. -/
inductive Member
  | shared (declaration : Declaration)
  | perObject (declaration : Declaration)
  | routine (routine : Routine)
  deriving Repr

/-- A class, the whole of a source text. -/
structure ClassTree where
  name : String
  members : List Member
  position : Option Position
  deriving Repr

namespace ClassTree

/-- The declarations of static variables, in order. -/
def statics (c : ClassTree) : List Declaration :=
  c.members.filterMap fun
    | .shared d => some d
    | _ => none

/-- The declarations of fields, in order. -/
def fields (c : ClassTree) : List Declaration :=
  c.members.filterMap fun
    | .perObject d => some d
    | _ => none

/-- The routines, in order. -/
def routines (c : ClassTree) : List Routine :=
  c.members.filterMap fun
    | .routine r => some r
    | _ => none

end ClassTree

end JackCompiler
