import JackCompiler.Syntax.Tree
/-!
# Trees as S-expressions

Every node is written as a list in parentheses headed by a word or an operator; names, numbers and
strings stand for themselves. A writer puts its text in front of what follows, so that the text of
a tree is built once, from its end.
-/

namespace JackCompiler

/-- Puts a text in front of another. -/
def before (text : String) (rest : List Char) : List Char := text.toList ++ rest

/-- Writes names, a space in front of each. -/
def writeNames (names : List String) (rest : List Char) : List Char :=
  names.foldr (fun name rest => ' ' :: before name rest) rest

mutual

/-- Writes an expression. -/
def Expr.write : Expr → List Char → List Char
  | .constant value _, rest => before (toString value) rest
  | .boolean value, rest => before (if value then "true" else "false") rest
  | .string value, rest => '"' :: before value ('"' :: rest)
  | .null, rest => before "null" rest
  | .this _, rest => before "this" rest
  | .reference name _, rest => before name rest
  | .binary op left right _, rest =>
    '(' :: before op.text (' ' :: left.write (' ' :: right.write (')' :: rest)))
  | .unary op operand, rest => '(' :: before op.text (' ' :: operand.write (')' :: rest))
  | .call name arguments _, rest =>
    before "(call " (before name (writeExprs arguments (')' :: rest)))
  | .methodCall receiver name arguments _, rest =>
    before "(call " (receiver.write ('.' :: before name (writeExprs arguments (')' :: rest))))
  | .index target subscript, rest =>
    before "(index " (target.write (' ' :: subscript.write (')' :: rest)))

/-- Writes expressions, a space in front of each. -/
def writeExprs : List Expr → List Char → List Char
  | [], rest => rest
  | e :: es, rest => ' ' :: e.write (writeExprs es rest)

end

/-- Writes a declaration without the word that opens it. -/
def Declaration.write (d : Declaration) (rest : List Char) : List Char :=
  before d.type.name (writeNames d.names rest)

mutual

/-- Writes a statement. -/
def Stmt.write : Stmt → List Char → List Char
  | .declare d, rest => before "(var " (d.write (')' :: rest))
  | .assign name value _, rest =>
    before "(let " (before name (' ' :: value.write (')' :: rest)))
  | .assignElement name subscript value _, rest =>
    before "(let (index " (before name
      (' ' :: subscript.write (')' :: ' ' :: value.write (')' :: rest))))
  | .ifThen condition body, rest =>
    before "(if " (condition.write (before " (block" (writeStmts body (')' :: ')' :: rest))))
  | .ifElse condition body alternative, rest =>
    before "(if " (condition.write (before " (block" (writeStmts body
      (')' :: before " (block" (writeStmts alternative (')' :: ')' :: rest))))))
  | .repeatWhile condition body, rest =>
    before "(while " (condition.write (before " (block" (writeStmts body (')' :: ')' :: rest))))
  | .perform call _, rest => before "(do " (call.write (')' :: rest))
  | .giveBack none _, rest => before "(return)" rest
  | .giveBack (some value) _, rest => before "(return " (value.write (')' :: rest))

/-- Writes statements, a space in front of each. -/
def writeStmts : List Stmt → List Char → List Char
  | [], rest => rest
  | s :: ss, rest => ' ' :: s.write (writeStmts ss rest)

end

/-- Writes a parameter. -/
def Parameter.write (p : Parameter) (rest : List Char) : List Char :=
  '(' :: before p.type.name (' ' :: before p.name (')' :: rest))

/-- Writes parameters, a space between two. -/
def writeParameters : List Parameter → List Char → List Char
  | [], rest => rest
  | [p], rest => p.write rest
  | p :: q :: ps, rest => p.write (' ' :: writeParameters (q :: ps) rest)

/-- Writes a routine. -/
def Routine.write (r : Routine) (rest : List Char) : List Char :=
  '(' :: before r.kind.text (' ' :: before r.returnType.name (' ' :: before r.name
    (before " (" (writeParameters r.parameters
      (before ") (block" (writeStmts r.body (')' :: ')' :: rest)))))))

/-- Writes a member of a class. -/
def Member.write : Member → List Char → List Char
  | .shared d, rest => before "(static " (d.write (')' :: rest))
  | .perObject d, rest => before "(field " (d.write (')' :: rest))
  | .routine r, rest => r.write rest

/-- The text of an expression. -/
def Expr.render (e : Expr) : String := String.ofList (e.write [])

/-- The text of a statement. -/
def Stmt.render (s : Stmt) : String := String.ofList (s.write [])

/-- The text of a class. -/
def ClassTree.render (c : ClassTree) : String :=
  String.ofList (before "(class " (before c.name
    (c.members.foldr (fun m rest => ' ' :: m.write rest) [')'])))

end JackCompiler
