import JackCompiler.Syntax.Context
import JackCompiler.Text.CompileError
import JackCompiler.Text.Decimal
/-!
# Reading a class one token at a time

A state says what may come next and holds what has been read. A step takes one token into a state:
it gives the next state, or completes the tree that is wanted, or refuses the token. Nothing is
taken back. Three parts of the grammar end only where the next token does not go on with them: a
name, an operand, and a statement with `if`. Their states look at that token, and where it does not
go on they pass it to what surrounds them.
-/

namespace JackCompiler

/-- What may come next, and what has been read. -/
inductive State : Goal → Type
  /-- An operand. -/
  | operand {g : Goal} (front : Pending) (context : ExprContext g) : State g
  /-- Behind a name: a dot, a parenthesis, or what may follow a variable. -/
  | named {g : Goal} (name : String) (place : Position) (front : Pending)
      (context : ExprContext g) : State g
  /-- Behind `this`: a dot, or what may follow an operand. -/
  | self {g : Goal} (place : Position) (front : Pending) (context : ExprContext g) : State g
  /-- Behind an operand that may have a subscript. -/
  | primary {g : Goal} (operand : Expr) (front : Pending) (context : ExprContext g) : State g
  /-- Behind an operand that is whole. -/
  | whole {g : Goal} (operand : Expr) (front : Pending) (context : ExprContext g) : State g
  /-- Behind a dot. -/
  | memberName {g : Goal} (receiver : Receiver) (front : Pending) (context : ExprContext g) :
      State g
  /-- In front of the arguments of a call on a receiver. -/
  | openArguments {g : Goal} (callee : Callee) (front : Pending) (context : ExprContext g) : State g
  /-- Behind the parenthesis that opens arguments. -/
  | firstArgument {g : Goal} (callee : Callee) (front : Pending) (context : ExprContext g) : State g
  /-- A statement. -/
  | statement {g : Goal} (context : StmtContext g) : State g
  /-- A block. -/
  | openBlock {g : Goal} (context : BlockContext g) : State g
  /-- In a block, behind some statements. -/
  | block {g : Goal} (earlier : List Stmt) (context : BlockContext g) : State g
  /-- Behind `let`. -/
  | assignedName {g : Goal} (place : Position) (context : StmtContext g) : State g
  /-- Behind the name of an assignment: a bracket, or the equals sign. -/
  | assignedTo {g : Goal} (place : Position) (name : String) (context : StmtContext g) : State g
  /-- Behind the subscript of an assignment. -/
  | assignedElement {g : Goal} (place : Position) (name : String) (subscript : Expr)
      (context : StmtContext g) : State g
  /-- Behind `return`: a value, or the semicolon. -/
  | givenBack {g : Goal} (place : Position) (context : StmtContext g) : State g
  /-- Behind `if`. -/
  | openIf {g : Goal} (context : StmtContext g) : State g
  /-- Behind `while`. -/
  | openWhile {g : Goal} (context : StmtContext g) : State g
  /-- Behind the first block of a statement with `if`: `else`, or what may follow a statement. -/
  | consequentDone {g : Goal} (condition : Expr) (body : List Stmt) (context : StmtContext g) :
      State g
  /-- Behind the word that opens a declaration. -/
  | declaredType {g : Goal} (place : Position) (context : DeclarationContext g) : State g
  /-- A name of a declaration, behind others, last first. -/
  | declaredName {g : Goal} (place : Position) (type : JackType) (names : List String)
      (context : DeclarationContext g) : State g
  /-- Behind a name of a declaration. -/
  | declaredMore {g : Goal} (place : Position) (type : JackType) (names : List String)
      (context : DeclarationContext g) : State g
  /-- A class. -/
  | classWord : State .class_
  /-- Behind `class`. -/
  | className (place : Position) : State .class_
  /-- Behind the name of a class. -/
  | openClass (place : Position) (name : String) : State .class_
  /-- In a class, behind some members. -/
  | members (owner : OpenClass) : State .class_
  /-- Behind the word that opens a routine. -/
  | routineType (owner : OpenClass) (kind : RoutineKind) (place : Position) : State .class_
  /-- Behind the type of a routine. -/
  | routineName (owner : OpenClass) (kind : RoutineKind) (place : Position) (type : JackType) :
      State .class_
  /-- Behind the name of a routine. -/
  | openParameters (routine : OpenRoutine) : State .class_
  /-- Behind the parenthesis that opens parameters. -/
  | firstParameter (routine : OpenRoutine) : State .class_
  /-- Behind a comma between parameters. -/
  | parameterType (routine : OpenRoutine) : State .class_
  /-- Behind the type of a parameter. -/
  | parameterName (routine : OpenRoutine) (type : JackType) : State .class_
  /-- Behind a parameter. -/
  | moreParameters (routine : OpenRoutine) : State .class_
  /-- Behind a class. -/
  | classDone (tree : ClassTree) : State .class_

/-- What a token does to a state. A tree may be complete with the token or in front of it, and an
error may be found behind the token or at it: `taken` tells. -/
inductive Outcome (g : Goal) where
  | next (state : State g)
  | complete (tree : g.Tree) (taken : Bool)
  | refuse (error : CompileError) (taken : Bool)

/-- The largest number that a class can write down. -/
def largestConstant : Nat := 32767

namespace Outcome

variable {g : Goal}

/-- The token is not what is expected here. -/
def expected (what : String) (t : Token) : Outcome g :=
  .refuse (.unexpectedToken what t.describe (some t.position)) false

/-- The token is not the one symbol that is expected here. -/
def expectedSymbol (s : Symbol) (t : Token) : Outcome g :=
  expected (TokenKind.symbol s).describe t

end Outcome

/-- Goes on behind a statement. -/
def StmtContext.resume {g : Goal} : StmtContext g → Stmt → Outcome g
  | .alone, s => .complete s true
  | .inside earlier block, s => .next (.block (s :: earlier) block)

/-- Goes on behind a block. -/
def BlockContext.resume {g : Goal} : BlockContext g → List Stmt → Outcome g
  | .body routine, statements => .next (.members (routine.close statements))
  | .consequent condition outer, statements => .next (.consequentDone condition statements outer)
  | .alternative condition first outer, statements =>
    outer.resume (.ifElse condition first statements)
  | .loop condition outer, statements => outer.resume (.repeatWhile condition statements)

/-- Goes on behind a declaration. -/
def DeclarationContext.resume {g : Goal} : DeclarationContext g → Declaration → Outcome g
  | .shared owner, d => .next (.members (owner.add (.shared d)))
  | .perObject owner, d => .next (.members (owner.add (.perObject d)))
  | .inRoutine outer, d => outer.resume (.declare d)

/-- Goes on behind an expression that the token does not go on with. -/
def ExprContext.resume {g : Goal} (context : ExprContext g) (e : Expr) (t : Token) : Outcome g :=
  match context with
  | .alone => .complete e false
  | .group outer context =>
    match t.kind with
    | .symbol .closeParen => .next (.primary e outer context)
    | _ => .expectedSymbol .closeParen t
  | .subscript target outer context =>
    match t.kind with
    | .symbol .closeBracket => .next (.whole (.index target e) outer context)
    | _ => .expectedSymbol .closeBracket t
  | .argument callee earlier outer context =>
    match t.kind with
    | .symbol .comma => .next (.operand .empty (.argument callee (e :: earlier) outer context))
    | .symbol .closeParen => .next (.primary (callee.call (e :: earlier).reverse) outer context)
    | _ => .expectedSymbol .closeParen t
  | .assignedPlace place name outer =>
    match t.kind with
    | .symbol .closeBracket => .next (.assignedElement place name e outer)
    | _ => .expectedSymbol .closeBracket t
  | .assignedValue place name element outer =>
    match t.kind with
    | .symbol .semicolon => outer.resume (.assignment place name element e)
    | _ => .expectedSymbol .semicolon t
  | .performed place outer =>
    match t.kind with
    | .symbol .semicolon => outer.resume (.perform e (some place))
    | _ => .expectedSymbol .semicolon t
  | .givenBack place outer =>
    match t.kind with
    | .symbol .semicolon => outer.resume (.giveBack (some e) (some place))
    | _ => .expectedSymbol .semicolon t
  | .ifCondition outer =>
    match t.kind with
    | .symbol .closeParen => .next (.openBlock (.consequent e outer))
    | _ => .expectedSymbol .closeParen t
  | .whileCondition outer =>
    match t.kind with
    | .symbol .closeParen => .next (.openBlock (.loop e outer))
    | _ => .expectedSymbol .closeParen t

namespace Token

/-- The type that a token names. -/
def type? (t : Token) (withVoid : Bool) : Option JackType :=
  match t.kind with
  | .keyword .int => some .int
  | .keyword .char => some .char
  | .keyword .boolean => some .boolean
  | .keyword .void => if withVoid then some .void else none
  | .identifier => some (.named t.value)
  | _ => none

/-- The kind of routine that a token opens. -/
def routine? (t : Token) : Option RoutineKind :=
  match t.kind with
  | .keyword .function => some .function
  | .keyword .method => some .method
  | .keyword .constructor => some .constructor
  | _ => none

/-- The number that a token denotes, if a class can write it down. -/
def constant? (t : Token) : Option UInt16 :=
  match Decimal.word? t.value.toList with
  | some n => if n.toNat ≤ largestConstant then some n else none
  | none => none

end Token

namespace State

variable {g : Goal}

/-- A token behind a whole operand: an operator between operands goes on. -/
def afterOperand (operand : Expr) (front : Pending) (context : ExprContext g) (t : Token) :
    Outcome g :=
  match t.kind with
  | .symbol s =>
    match s.binaryOp? with
    | some op => .next (.operand ⟨some (front.close operand, op, t.position), []⟩ context)
    | none => context.resume (front.close operand) t
  | _ => context.resume (front.close operand) t

/-- A token behind an operand that may have a subscript. -/
def afterPrimary (operand : Expr) (front : Pending) (context : ExprContext g) (t : Token) :
    Outcome g :=
  match t.kind with
  | .symbol .openBracket => .next (.operand .empty (.subscript operand front context))
  | _ => afterOperand operand front context t

/-- A token that opens an operand. -/
def beginOperand (front : Pending) (context : ExprContext g) (t : Token) : Outcome g :=
  match t.kind with
  | .symbol .minus => .next (.operand (front.sign .negate) context)
  | .symbol .tilde => .next (.operand (front.sign .not) context)
  | .symbol .openParen => .next (.operand .empty (.group front context))
  | .integerConstant =>
    match t.constant? with
    | some n => .next (.primary (.constant n (some t.position)) front context)
    | none =>
      .refuse (.unexpectedToken s!"integer constant in 0..={largestConstant}" t.value
        (some t.position)) true
  | .stringConstant =>
    if t.value.utf8ByteSize ≤ largestConstant then
      .next (.primary (.string t.value) front context)
    else
      .refuse (.unexpectedToken s!"string constant of at most {largestConstant} bytes"
        s!"string constant of {t.value.utf8ByteSize} bytes" (some t.position)) true
  | .keyword .true_ => .next (.primary (.boolean true) front context)
  | .keyword .false_ => .next (.primary (.boolean false) front context)
  | .keyword .null => .next (.primary .null front context)
  | .keyword .this => .next (.self t.position front context)
  | .identifier => .next (.named t.value t.position front context)
  | _ => .expected "expression" t

/-- A token that opens a statement. -/
def beginStatement (context : StmtContext g) (t : Token) : Outcome g :=
  match t.kind with
  | .keyword .var => .next (.declaredType t.position (.inRoutine context))
  | .keyword .let_ => .next (.assignedName t.position context)
  | .keyword .do_ => .next (.operand .empty (.performed t.position context))
  | .keyword .if_ => .next (.openIf context)
  | .keyword .while_ => .next (.openWhile context)
  | .keyword .return_ => .next (.givenBack t.position context)
  | _ => .expected "statement" t

/-- A token in a block. -/
def inBlock (earlier : List Stmt) (context : BlockContext g) (t : Token) : Outcome g :=
  match t.kind with
  | .symbol .closeBrace => context.resume earlier.reverse
  | _ => beginStatement (.inside earlier context) t

/-- A token behind a statement that has ended in front of it. -/
def afterStatement (s : Stmt) (context : StmtContext g) (t : Token) : Outcome g :=
  match context with
  | .alone => .complete s false
  | .inside earlier outer => inBlock (s :: earlier) outer t

/-- A token in a class. -/
def inClass (owner : OpenClass) (t : Token) : Outcome .class_ :=
  match t.kind with
  | .symbol .closeBrace => .next (.classDone owner.close)
  | .keyword .static => .next (.declaredType t.position (.shared owner))
  | .keyword .field => .next (.declaredType t.position (.perObject owner))
  | _ =>
    match t.routine? with
    | some kind => .next (.routineType owner kind t.position)
    | none => .expected "class member" t

/-- The type that opens a parameter. -/
def beginParameter (routine : OpenRoutine) (t : Token) : Outcome .class_ :=
  match t.type? false with
  | some type => .next (.parameterName routine type)
  | none => .expected "type" t

/-- What a token does to a state. -/
def step : State g → Token → Outcome g
  | operand front context, t => beginOperand front context t
  | named name place front context, t =>
    match t.kind with
    | .symbol .dot => .next (.memberName (.named name place) front context)
    | .symbol .openParen => .next (.firstArgument (.own name place) front context)
    | _ => afterPrimary (.reference name (some place)) front context t
  | self place front context, t =>
    match t.kind with
    | .symbol .dot => .next (.memberName (.this place) front context)
    | _ => afterPrimary (.this (some place)) front context t
  | primary e front context, t => afterPrimary e front context t
  | whole e front context, t => afterOperand e front context t
  | memberName receiver front context, t =>
    match t.kind with
    | .identifier => .next (.openArguments (.member receiver t.value) front context)
    | _ => .expected TokenKind.identifier.describe t
  | openArguments callee front context, t =>
    match t.kind with
    | .symbol .openParen => .next (.firstArgument callee front context)
    | _ => .expectedSymbol .openParen t
  | firstArgument callee front context, t =>
    match t.kind with
    | .symbol .closeParen => .next (.primary (callee.call []) front context)
    | _ => beginOperand .empty (.argument callee [] front context) t
  | statement context, t => beginStatement context t
  | openBlock context, t =>
    match t.kind with
    | .symbol .openBrace => .next (.block [] context)
    | _ => .expectedSymbol .openBrace t
  | block earlier context, t => inBlock earlier context t
  | assignedName place context, t =>
    match t.kind with
    | .identifier => .next (.assignedTo place t.value context)
    | _ => .expected TokenKind.identifier.describe t
  | assignedTo place name context, t =>
    match t.kind with
    | .symbol .openBracket => .next (.operand .empty (.assignedPlace place name context))
    | .symbol .equal => .next (.operand .empty (.assignedValue place name none context))
    | _ => .expectedSymbol .equal t
  | assignedElement place name subscript context, t =>
    match t.kind with
    | .symbol .equal => .next (.operand .empty (.assignedValue place name (some subscript) context))
    | _ => .expectedSymbol .equal t
  | givenBack place context, t =>
    match t.kind with
    | .symbol .semicolon => context.resume (.giveBack none (some place))
    | _ => beginOperand .empty (.givenBack place context) t
  | openIf context, t =>
    match t.kind with
    | .symbol .openParen => .next (.operand .empty (.ifCondition context))
    | _ => .expectedSymbol .openParen t
  | openWhile context, t =>
    match t.kind with
    | .symbol .openParen => .next (.operand .empty (.whileCondition context))
    | _ => .expectedSymbol .openParen t
  | consequentDone condition body context, t =>
    match t.kind with
    | .keyword .else_ => .next (.openBlock (.alternative condition body context))
    | _ => afterStatement (.ifThen condition body) context t
  | declaredType place context, t =>
    match t.type? false with
    | some type => .next (.declaredName place type [] context)
    | none => .expected "type" t
  | declaredName place type names context, t =>
    match t.kind with
    | .identifier => .next (.declaredMore place type (t.value :: names) context)
    | _ => .expected TokenKind.identifier.describe t
  | declaredMore place type names context, t =>
    match t.kind with
    | .symbol .comma => .next (.declaredName place type names context)
    | .symbol .semicolon => context.resume ⟨type, names.reverse, some place⟩
    | _ => .expectedSymbol .semicolon t
  | classWord, t =>
    match t.kind with
    | .keyword .class_ => .next (.className t.position)
    | _ => .expected (TokenKind.keyword .class_).describe t
  | className place, t =>
    match t.kind with
    | .identifier => .next (.openClass place t.value)
    | _ => .expected TokenKind.identifier.describe t
  | openClass place name, t =>
    match t.kind with
    | .symbol .openBrace => .next (.members ⟨place, name, []⟩)
    | _ => .expectedSymbol .openBrace t
  | members owner, t => inClass owner t
  | routineType owner kind place, t =>
    match t.type? (kind ≠ .constructor) with
    | some type => .next (.routineName owner kind place type)
    | none => .expected "type" t
  | routineName owner kind place type, t =>
    match t.kind with
    | .identifier => .next (.openParameters ⟨owner, kind, place, type, t.value, []⟩)
    | _ => .expected TokenKind.identifier.describe t
  | openParameters routine, t =>
    match t.kind with
    | .symbol .openParen => .next (.firstParameter routine)
    | _ => .expectedSymbol .openParen t
  | firstParameter routine, t =>
    match t.kind with
    | .symbol .closeParen => .next (.openBlock (.body routine))
    | _ => beginParameter routine t
  | parameterType routine, t => beginParameter routine t
  | parameterName routine type, t =>
    match t.kind with
    | .identifier => .next (.moreParameters (routine.add ⟨type, t.value, some t.position⟩))
    | _ => .expected TokenKind.identifier.describe t
  | moreParameters routine, t =>
    match t.kind with
    | .symbol .comma => .next (.parameterType routine)
    | .symbol .closeParen => .next (.openBlock (.body routine))
    | _ => .expectedSymbol .closeParen t
  | classDone _, t => .refuse (.trailingToken t.describe (some t.position)) false

/-- What the end of the text does behind an expression: the tree, or what is missing. -/
def endOfExpr (context : ExprContext g) (e : Expr) : Except String g.Tree :=
  match context with
  | .alone => .ok e
  | context => .error (TokenKind.symbol context.closer).describe

/-- What the end of the text does to a state: it completes the tree that is wanted, or something is
missing. -/
def atEnd : State g → Except String g.Tree
  | operand .. | firstArgument .. | givenBack .. => .error "expression"
  | named name place front context =>
    endOfExpr context (front.close (.reference name (some place)))
  | self place front context => endOfExpr context (front.close (.this (some place)))
  | primary e front context | whole e front context => endOfExpr context (front.close e)
  | memberName .. | assignedName .. | declaredName .. | className .. | routineName ..
  | parameterName .. => .error TokenKind.identifier.describe
  | openArguments .. | openIf .. | openWhile .. | openParameters .. =>
    .error (TokenKind.symbol .openParen).describe
  | statement .. => .error "statement"
  | openBlock .. | openClass .. => .error (TokenKind.symbol .openBrace).describe
  | block .. | members .. => .error (TokenKind.symbol .closeBrace).describe
  | assignedTo .. | assignedElement .. => .error (TokenKind.symbol .equal).describe
  | consequentDone condition body .alone => .ok (.ifThen condition body)
  | consequentDone _ _ (.inside ..) => .error (TokenKind.symbol .closeBrace).describe
  | declaredType .. | routineType .. | firstParameter .. | parameterType .. => .error "type"
  | declaredMore .. => .error (TokenKind.symbol .semicolon).describe
  | classWord => .error (TokenKind.keyword .class_).describe
  | moreParameters .. => .error (TokenKind.symbol .closeParen).describe
  | classDone tree => .ok tree

end State

end JackCompiler
