import JackCompiler.Proofs.Text.Digits
/-!
# The grammar

Derivations of the grammar of classes, one type for each part and one constructor for each way to
derive it. The leaves are tokens of the kinds that the grammar names, so a derivation cannot be
wrong. It has two readings: the tokens at its leaves, from left to right, and the tree it denotes.

        class      'class' ident '{' member* '}'
        member     ('static' | 'field') variables
                   ('function' | 'method') (type | 'void') signature | 'constructor' type signature
        signature  ident '(' (type ident (',' type ident)*)? ')' block
        variables  type ident (',' ident)* ';'
        statement  'var' variables | 'let' ident ('[' expr ']')? '=' expr ';' | 'do' expr ';'
                   'if' '(' expr ')' block ('else' block)? | 'while' '(' expr ')' block
                   'return' expr? ';'
        expr       unary (binop unary)*
        unary      ('-' | '~') unary | postfix
        postfix    primary ('[' expr ']')?
        primary    int | string | 'true' | 'false' | 'null' | 'this' | '(' expr ')' | ident
                   (ident '.' | 'this' '.')? ident '(' (expr (',' expr)*)? ')'

The tokens are written in front of others, so that what stands behind a part is in view: where a
part ends is decided there.
-/

namespace JackCompiler.Grammar

/-! ### Leaves -/

/-- A token of one kind. -/
@[ext] structure Terminal (kind : TokenKind) where
  token : Token
  kind_eq : token.kind = kind

/-- A reserved word. -/
abbrev Reserved (k : Keyword) := Terminal (.keyword k)

/-- A symbol. -/
abbrev Mark (s : Symbol) := Terminal (.symbol s)

/-- A name. -/
abbrev Name := Terminal .identifier

/-- The text of a name. -/
def Name.text (n : Name) : String := n.token.value

/-- A number that a class can write down. There may be zeros in front. -/
@[ext] structure Number extends Terminal .integerConstant where
  digits : IsDigits token.value
  small : decimalValue token.value.toList ≤ 32767

/-- The number as a word. -/
def Number.value (n : Number) : UInt16 := .ofNat (decimalValue n.token.value.toList)

/-- A string that a class can write down. -/
@[ext] structure Text extends Terminal .stringConstant where
  short : token.value.utf8ByteSize ≤ 32767

/-- The symbol of an operator between operands. -/
def binarySymbol : BinaryOp → Symbol
  | .add => .plus
  | .subtract => .minus
  | .multiply => .star
  | .divide => .slash
  | .and => .ampersand
  | .or => .bar
  | .less => .less
  | .greater => .greater
  | .equal => .equal

/-- The symbol of an operator in front of an operand. -/
def unarySymbol : UnaryOp → Symbol
  | .negate => .minus
  | .not => .tilde

theorem binaryOp?_eq_some {s : Symbol} {op : BinaryOp} :
    s.binaryOp? = some op ↔ s = binarySymbol op := by
  cases s <;> cases op <;> simp [Symbol.binaryOp?, binarySymbol]

/-! ### Expressions -/

mutual

/-- An operand, and further ones behind operators. -/
inductive Expression
  | mk (first : Unary) (rest : Operations)

/-- Operators between operands, each with the operand behind it. -/
inductive Operations
  | nil
  | cons (op : BinaryOp) (sign : Mark (binarySymbol op)) (operand : Unary) (rest : Operations)

/-- An operand behind operators. -/
inductive Unary
  | sign (op : UnaryOp) (sign : Mark (unarySymbol op)) (operand : Unary)
  | plain (operand : Postfix)

/-- A primary with one subscript or none. -/
inductive Postfix
  | plain (primary : Primary)
  | index (primary : Primary) (left : Mark .openBracket) (subscript : Expression)
      (right : Mark .closeBracket)

/-- What needs no operator. -/
inductive Primary
  | number (n : Number)
  | text (s : Text)
  | true_ (word : Reserved .true_)
  | false_ (word : Reserved .false_)
  | null (word : Reserved .null)
  | this (word : Reserved .this)
  | group (left : Mark .openParen) (inner : Expression) (right : Mark .closeParen)
  | memberCall (receiver : Name) (dot : Mark .dot) (name : Name) (left : Mark .openParen)
      (arguments : Arguments) (right : Mark .closeParen)
  | thisCall (receiver : Reserved .this) (dot : Mark .dot) (name : Name) (left : Mark .openParen)
      (arguments : Arguments) (right : Mark .closeParen)
  | call (name : Name) (left : Mark .openParen) (arguments : Arguments) (right : Mark .closeParen)
  | name (name : Name)

/-- Expressions between commas, or nothing. -/
inductive Arguments
  | none
  | some (first : Expression) (more : MoreArguments)

/-- Expressions, each behind a comma. -/
inductive MoreArguments
  | nil
  | cons (comma : Mark .comma) (argument : Expression) (more : MoreArguments)

end

mutual

/-- The tokens of an expression, in front of others. -/
def Expression.onto : Expression → List Token → List Token
  | .mk first rest, ts => first.onto (rest.onto ts)

/-- The tokens of operators and operands, in front of others. -/
def Operations.onto : Operations → List Token → List Token
  | .nil, ts => ts
  | .cons _ sign operand rest, ts => sign.token :: operand.onto (rest.onto ts)

/-- The tokens of an operand, in front of others. -/
def Unary.onto : Unary → List Token → List Token
  | .sign _ sign operand, ts => sign.token :: operand.onto ts
  | .plain operand, ts => operand.onto ts

/-- The tokens of an operand without operators, in front of others. -/
def Postfix.onto : Postfix → List Token → List Token
  | .plain primary, ts => primary.onto ts
  | .index primary left subscript right, ts =>
    primary.onto (left.token :: subscript.onto (right.token :: ts))

/-- The tokens of a primary, in front of others. -/
def Primary.onto : Primary → List Token → List Token
  | .number n, ts => n.token :: ts
  | .text s, ts => s.token :: ts
  | .true_ w, ts => w.token :: ts
  | .false_ w, ts => w.token :: ts
  | .null w, ts => w.token :: ts
  | .this w, ts => w.token :: ts
  | .group left inner right, ts => left.token :: inner.onto (right.token :: ts)
  | .memberCall receiver dot name left arguments right, ts =>
    receiver.token :: dot.token :: name.token :: left.token :: arguments.onto (right.token :: ts)
  | .thisCall receiver dot name left arguments right, ts =>
    receiver.token :: dot.token :: name.token :: left.token :: arguments.onto (right.token :: ts)
  | .call name left arguments right, ts =>
    name.token :: left.token :: arguments.onto (right.token :: ts)
  | .name name, ts => name.token :: ts

/-- The tokens of arguments, in front of others. -/
def Arguments.onto : Arguments → List Token → List Token
  | .none, ts => ts
  | .some first more, ts => first.onto (more.onto ts)

/-- The tokens of further arguments, in front of others. -/
def MoreArguments.onto : MoreArguments → List Token → List Token
  | .nil, ts => ts
  | .cons comma argument more, ts => comma.token :: argument.onto (more.onto ts)

end

mutual

/-- The tree of an expression: its operators are applied from left to right. -/
def Expression.tree : Expression → Expr
  | .mk first rest => rest.apply first.tree

/-- The tree of operators and operands behind a left side. -/
def Operations.apply : Operations → Expr → Expr
  | .nil, left => left
  | .cons op sign operand rest, left =>
    rest.apply (.binary op left operand.tree (some sign.token.position))

/-- The tree of an operand: operators in front are applied last. -/
def Unary.tree : Unary → Expr
  | .sign op _ operand => .unary op operand.tree
  | .plain operand => operand.tree

/-- The tree of an operand without operators. -/
def Postfix.tree : Postfix → Expr
  | .plain primary => primary.tree
  | .index primary _ subscript _ => .index primary.tree subscript.tree

/-- The tree of a primary. -/
def Primary.tree : Primary → Expr
  | .number n => .constant n.value (some n.token.position)
  | .text s => .string s.token.value
  | .true_ _ => .boolean true
  | .false_ _ => .boolean false
  | .null _ => .null
  | .this w => .this (some w.token.position)
  | .group _ inner _ => inner.tree
  | .memberCall receiver _ name _ arguments _ =>
    .methodCall (.reference receiver.text (some receiver.token.position)) name.text arguments.trees
      (some receiver.token.position)
  | .thisCall receiver _ name _ arguments _ =>
    .methodCall (.this (some receiver.token.position)) name.text arguments.trees
      (some receiver.token.position)
  | .call name _ arguments _ => .call name.text arguments.trees (some name.token.position)
  | .name name => .reference name.text (some name.token.position)

/-- The trees of arguments. -/
def Arguments.trees : Arguments → List Expr
  | .none => []
  | .some first more => first.tree :: more.trees

/-- The trees of further arguments. -/
def MoreArguments.trees : MoreArguments → List Expr
  | .nil => []
  | .cons _ argument more => argument.tree :: more.trees

end

/-! ### Declarations -/

/-- The type of a variable. -/
inductive VariableType
  | int (word : Reserved .int)
  | char (word : Reserved .char)
  | boolean (word : Reserved .boolean)
  | named (name : Name)

namespace VariableType

/-- The token of a type. -/
def token : VariableType → Token
  | int w => w.token
  | char w => w.token
  | boolean w => w.token
  | named n => n.token

/-- The type that is meant. -/
def tree : VariableType → JackType
  | int _ => .int
  | char _ => .char
  | boolean _ => .boolean
  | named n => .named n.text

end VariableType

/-- The type of a result. -/
inductive ResultType
  | value (type : VariableType)
  | void (word : Reserved .void)

namespace ResultType

/-- The token of a type. -/
def token : ResultType → Token
  | value t => t.token
  | void w => w.token

/-- The type that is meant. -/
def tree : ResultType → JackType
  | value t => t.tree
  | void _ => .void

end ResultType

/-- Names, each behind a comma. -/
abbrev MoreNames := List (Mark .comma × Name)

/-- The tokens of names behind commas, in front of others. -/
def MoreNames.onto : MoreNames → List Token → List Token
  | [], ts => ts
  | (comma, name) :: more, ts => comma.token :: name.token :: MoreNames.onto more ts

/-- Variables of one type, up to the semicolon. -/
structure Variables where
  type : VariableType
  first : Name
  more : MoreNames
  stop : Mark .semicolon

namespace Variables

/-- The tokens of variables, in front of others. -/
def onto (v : Variables) (ts : List Token) : List Token :=
  v.type.token :: v.first.token :: v.more.onto (v.stop.token :: ts)

/-- The declaration that is meant, behind a word at a place. -/
def tree (v : Variables) (place : Position) : Declaration :=
  ⟨v.type.tree, v.first.text :: v.more.map (·.2.text), some place⟩

end Variables

/-! ### Statements -/

mutual

/-- A statement. -/
inductive Statement
  | declare (word : Reserved .var) (declared : Variables)
  | assign (word : Reserved .let_) (name : Name) (equal : Mark .equal) (value : Expression)
      (stop : Mark .semicolon)
  | assignElement (word : Reserved .let_) (name : Name) (left : Mark .openBracket)
      (subscript : Expression) (right : Mark .closeBracket) (equal : Mark .equal)
      (value : Expression) (stop : Mark .semicolon)
  | perform (word : Reserved .do_) (call : Expression) (stop : Mark .semicolon)
  | ifThen (word : Reserved .if_) (left : Mark .openParen) (condition : Expression)
      (right : Mark .closeParen) (body : Block)
  | ifElse (word : Reserved .if_) (left : Mark .openParen) (condition : Expression)
      (right : Mark .closeParen) (body : Block) (otherwise : Reserved .else_) (alternative : Block)
  | repeatWhile (word : Reserved .while_) (left : Mark .openParen) (condition : Expression)
      (right : Mark .closeParen) (body : Block)
  | giveBack (word : Reserved .return_) (stop : Mark .semicolon)
  | giveBackValue (word : Reserved .return_) (value : Expression) (stop : Mark .semicolon)

/-- Statements between braces. -/
inductive Block
  | mk (left : Mark .openBrace) (statements : Statements) (right : Mark .closeBrace)

/-- Statements one after the other. -/
inductive Statements
  | nil
  | cons (first : Statement) (rest : Statements)

end

mutual

/-- The tokens of a statement, in front of others. -/
def Statement.onto : Statement → List Token → List Token
  | .declare word declared, ts => word.token :: declared.onto ts
  | .assign word name equal value stop, ts =>
    word.token :: name.token :: equal.token :: value.onto (stop.token :: ts)
  | .assignElement word name left subscript right equal value stop, ts =>
    word.token :: name.token :: left.token ::
      subscript.onto (right.token :: equal.token :: value.onto (stop.token :: ts))
  | .perform word call stop, ts => word.token :: call.onto (stop.token :: ts)
  | .ifThen word left condition right body, ts =>
    word.token :: left.token :: condition.onto (right.token :: body.onto ts)
  | .ifElse word left condition right body otherwise alternative, ts =>
    word.token :: left.token ::
      condition.onto (right.token :: body.onto (otherwise.token :: alternative.onto ts))
  | .repeatWhile word left condition right body, ts =>
    word.token :: left.token :: condition.onto (right.token :: body.onto ts)
  | .giveBack word stop, ts => word.token :: stop.token :: ts
  | .giveBackValue word value stop, ts => word.token :: value.onto (stop.token :: ts)

/-- The tokens of a block, in front of others. -/
def Block.onto : Block → List Token → List Token
  | .mk left statements right, ts => left.token :: statements.onto (right.token :: ts)

/-- The tokens of statements, in front of others. -/
def Statements.onto : Statements → List Token → List Token
  | .nil, ts => ts
  | .cons first rest, ts => first.onto (rest.onto ts)

end

mutual

/-- The tree of a statement. -/
def Statement.tree : Statement → Stmt
  | .declare word declared => .declare (declared.tree word.token.position)
  | .assign word name _ value _ => .assign name.text value.tree (some word.token.position)
  | .assignElement word name _ subscript _ _ value _ =>
    .assignElement name.text subscript.tree value.tree (some word.token.position)
  | .perform word call _ => .perform call.tree (some word.token.position)
  | .ifThen _ _ condition _ body => .ifThen condition.tree body.trees
  | .ifElse _ _ condition _ body _ alternative =>
    .ifElse condition.tree body.trees alternative.trees
  | .repeatWhile _ _ condition _ body => .repeatWhile condition.tree body.trees
  | .giveBack word _ => .giveBack none (some word.token.position)
  | .giveBackValue word value _ => .giveBack (some value.tree) (some word.token.position)

/-- The trees of the statements of a block. -/
def Block.trees : Block → List Stmt
  | .mk _ statements _ => statements.trees

/-- The trees of statements. -/
def Statements.trees : Statements → List Stmt
  | .nil => []
  | .cons first rest => first.tree :: rest.trees

end

/-! ### Classes -/

/-- A parameter. -/
structure ParameterPart where
  type : VariableType
  name : Name

namespace ParameterPart

/-- The tokens of a parameter, in front of others. -/
def onto (p : ParameterPart) (ts : List Token) : List Token := p.type.token :: p.name.token :: ts

/-- The parameter that is meant. Its place is that of its name. -/
def tree (p : ParameterPart) : Parameter := ⟨p.type.tree, p.name.text, some p.name.token.position⟩

end ParameterPart

/-- Parameters, each behind a comma. -/
abbrev MoreParameters := List (Mark .comma × ParameterPart)

/-- The tokens of parameters behind commas, in front of others. -/
def MoreParameters.onto : MoreParameters → List Token → List Token
  | [], ts => ts
  | (comma, p) :: more, ts => comma.token :: p.onto (MoreParameters.onto more ts)

/-- Parameters between commas, or nothing. -/
inductive Parameters
  | none
  | some (first : ParameterPart) (more : MoreParameters)

namespace Parameters

/-- The tokens of parameters, in front of others. -/
def onto : Parameters → List Token → List Token
  | none, ts => ts
  | some first more, ts => first.onto (more.onto ts)

/-- The parameters that are meant. -/
def trees : Parameters → List Parameter
  | none => []
  | some first more => first.tree :: more.map (·.2.tree)

end Parameters

/-- A routine, from its name on. -/
structure Signature where
  name : Name
  left : Mark .openParen
  parameters : Parameters
  right : Mark .closeParen
  body : Block

namespace Signature

/-- The tokens of a routine from its name on, in front of others. -/
def onto (s : Signature) (ts : List Token) : List Token :=
  s.name.token :: s.left.token :: s.parameters.onto (s.right.token :: s.body.onto ts)

/-- The routine that is meant, behind a word at a place and a type. -/
def tree (s : Signature) (kind : RoutineKind) (type : JackType) (place : Position) : Routine :=
  ⟨kind, type, s.name.text, s.parameters.trees, s.body.trees, some place⟩

end Signature

/-- A member of a class. -/
inductive MemberPart
  | shared (word : Reserved .static) (declared : Variables)
  | perObject (word : Reserved .field) (declared : Variables)
  | function (word : Reserved .function) (type : ResultType) (signature : Signature)
  | method (word : Reserved .method) (type : ResultType) (signature : Signature)
  | constructor (word : Reserved .constructor) (type : VariableType) (signature : Signature)

namespace MemberPart

/-- The tokens of a member, in front of others. -/
def onto : MemberPart → List Token → List Token
  | shared word declared, ts => word.token :: declared.onto ts
  | perObject word declared, ts => word.token :: declared.onto ts
  | function word type signature, ts => word.token :: type.token :: signature.onto ts
  | method word type signature, ts => word.token :: type.token :: signature.onto ts
  | constructor word type signature, ts => word.token :: type.token :: signature.onto ts

/-- The member that is meant. -/
def tree : MemberPart → Member
  | shared word declared => .shared (declared.tree word.token.position)
  | perObject word declared => .perObject (declared.tree word.token.position)
  | function word type signature =>
    .routine (signature.tree .function type.tree word.token.position)
  | method word type signature => .routine (signature.tree .method type.tree word.token.position)
  | constructor word type signature =>
    .routine (signature.tree .constructor type.tree word.token.position)

end MemberPart

/-- The tokens of members, in front of others. -/
def membersOnto : List MemberPart → List Token → List Token
  | [], ts => ts
  | m :: ms, ts => m.onto (membersOnto ms ts)

/-- A class. -/
structure Class where
  word : Reserved .class_
  name : Name
  left : Mark .openBrace
  members : List MemberPart
  right : Mark .closeBrace

namespace Class

/-- The tokens of a class. -/
def tokens (c : Class) : List Token :=
  c.word.token :: c.name.token :: c.left.token :: membersOnto c.members [c.right.token]

/-- The tree of a class. -/
def tree (c : Class) : ClassTree :=
  ⟨c.name.text, c.members.map MemberPart.tree, some c.word.token.position⟩

end Class

end JackCompiler.Grammar
