import JackCompiler.Syntax.Tree
/-!
# What surrounds a part of a class

While a class is read, the part under way stands inside others that are open: an expression inside
a statement, a statement inside a block, a block inside a routine. A context holds what has been
read of them. Contexts are typed by the part they wait for and by the goal, the tree that is wanted
in the end, so an expression can only be put where the grammar has room for one.
-/

namespace JackCompiler

/-- The tree that is wanted. -/
inductive Goal
  | expression
  | statement
  | class_
  deriving DecidableEq, Repr

/-- The type of the tree that is wanted. -/
abbrev Goal.Tree : Goal → Type
  | expression => Expr
  | statement => Stmt
  | class_ => ClassTree

/-- A class that is open: its members so far, last first. -/
structure OpenClass where
  place : Position
  name : String
  members : List Member
  deriving Repr

namespace OpenClass

/-- The class with one more member. -/
def add (c : OpenClass) (m : Member) : OpenClass := { c with members := m :: c.members }

/-- The class as it stands. -/
def close (c : OpenClass) : ClassTree := ⟨c.name, c.members.reverse, some c.place⟩

end OpenClass

/-- A routine that is open, and the class around it: its parameters so far, last first. -/
structure OpenRoutine where
  owner : OpenClass
  kind : RoutineKind
  place : Position
  returnType : JackType
  name : String
  parameters : List Parameter
  deriving Repr

namespace OpenRoutine

/-- The routine with one more parameter. -/
def add (r : OpenRoutine) (p : Parameter) : OpenRoutine := { r with parameters := p :: r.parameters }

/-- The class around the routine, with the routine in it. -/
def close (r : OpenRoutine) (body : List Stmt) : OpenClass :=
  r.owner.add (.routine ⟨r.kind, r.returnType, r.name, r.parameters.reverse, body, some r.place⟩)

end OpenRoutine

mutual

/-- What surrounds a statement: nothing, or a block with the statements before it, last first. -/
inductive StmtContext : Goal → Type
  | alone : StmtContext .statement
  | inside {g : Goal} (earlier : List Stmt) (block : BlockContext g) : StmtContext g

/-- What surrounds a block. -/
inductive BlockContext : Goal → Type
  | body (routine : OpenRoutine) : BlockContext .class_
  | consequent {g : Goal} (condition : Expr) (outer : StmtContext g) : BlockContext g
  | alternative {g : Goal} (condition : Expr) (body : List Stmt) (outer : StmtContext g) :
      BlockContext g
  | loop {g : Goal} (condition : Expr) (outer : StmtContext g) : BlockContext g

end

/-- What surrounds a declaration of variables. -/
inductive DeclarationContext : Goal → Type
  | shared (owner : OpenClass) : DeclarationContext .class_
  | perObject (owner : OpenClass) : DeclarationContext .class_
  | inRoutine {g : Goal} (outer : StmtContext g) : DeclarationContext g

/-- What stands in front of the dot of a call. -/
inductive Receiver
  | this (place : Position)
  | named (name : String) (place : Position)
  deriving DecidableEq, Repr

namespace Receiver

/-- The place of a receiver. -/
def place : Receiver → Position
  | this p | named _ p => p

/-- A receiver as an expression. -/
def expr : Receiver → Expr
  | this p => .this (some p)
  | named n p => .reference n (some p)

end Receiver

/-- What stands in front of the arguments of a call. -/
inductive Callee
  | own (name : String) (place : Position)
  | member (receiver : Receiver) (name : String)
  deriving DecidableEq, Repr

/-- The call with all its arguments. -/
def Callee.call : Callee → List Expr → Expr
  | own name p, arguments => .call name arguments (some p)
  | member receiver name, arguments =>
    .methodCall receiver.expr name arguments (some receiver.place)

/-- What an expression has in front of the operand under way: the left side with its operator, and
the operators of the operand, the innermost first. -/
structure Pending where
  left : Option (Expr × BinaryOp × Position)
  signs : List UnaryOp
  deriving Repr

namespace Pending

/-- Nothing in front. -/
def empty : Pending := ⟨none, []⟩

/-- One more operator in front of the operand. -/
def sign (p : Pending) (op : UnaryOp) : Pending := { p with signs := op :: p.signs }

/-- The expression up to and with the operand. Operators in front bind closer than the operator
between, and what is on its left is one operand. -/
def close (p : Pending) (operand : Expr) : Expr :=
  let right := p.signs.foldl (fun e op => .unary op e) operand
  match p.left with
  | none => right
  | some (left, op, place) => .binary op left right (some place)

end Pending

/-- What surrounds an expression: nothing, parentheses or brackets inside another expression, or a
statement. -/
inductive ExprContext : Goal → Type
  | alone : ExprContext .expression
  | group {g : Goal} (outer : Pending) (context : ExprContext g) : ExprContext g
  | subscript {g : Goal} (target : Expr) (outer : Pending) (context : ExprContext g) :
      ExprContext g
  | argument {g : Goal} (callee : Callee) (earlier : List Expr) (outer : Pending)
      (context : ExprContext g) : ExprContext g
  | assignedPlace {g : Goal} (place : Position) (name : String) (outer : StmtContext g) :
      ExprContext g
  | assignedValue {g : Goal} (place : Position) (name : String) (subscript : Option Expr)
      (outer : StmtContext g) : ExprContext g
  | performed {g : Goal} (place : Position) (outer : StmtContext g) : ExprContext g
  | givenBack {g : Goal} (place : Position) (outer : StmtContext g) : ExprContext g
  | ifCondition {g : Goal} (outer : StmtContext g) : ExprContext g
  | whileCondition {g : Goal} (outer : StmtContext g) : ExprContext g

/-- The symbol that closes an expression, `alone` apart: there any token does. -/
def ExprContext.closer {g : Goal} : ExprContext g → Symbol
  | group .. | argument .. | ifCondition _ | whileCondition _ => .closeParen
  | subscript .. | assignedPlace .. => .closeBracket
  | alone | assignedValue .. | performed .. | givenBack .. => .semicolon

/-- An assignment to a variable, or to an element of the array it holds. -/
def Stmt.assignment (place : Position) (name : String) (subscript : Option Expr) (value : Expr) :
    Stmt :=
  match subscript with
  | none => .assign name value (some place)
  | some s => .assignElement name s value (some place)

end JackCompiler
