import JackCompiler.Lexeme.TokenBuffer
import JackCompiler.Syntax.Parse
/-!
# Reading a class by recursive descent

The grammar as functions that call one another: one for every part of a class, and one for every
loop, which calls itself once a round. A function looks at the next token, takes it, or calls, and
what it does then depends on what it got; it has no way to put a token back. Nothing here says that
such a descent comes to an end. It is run with a bound on the calls that are open at a time, and
without a result where the bound is too small.

        file ──▶ classTree ──▶ members ↺ ──▶ member ──▶ declaration
                                                  └───▶ routine ──▶ block ──▶ statements ↺
        statement ──▶ … ──▶ expression ──▶ unary ↺ ──▶ subscripted ──▶ primary ──▶ expression
                                └─▶ operators ↺
-/

namespace JackCompiler.Descent

/-! ### Functions -/

/-- The functions of the descent: parts of a class, and the loops over them. -/
inductive Call
  | file | classTree | members | member
  | declaration (word : Keyword) | moreNames | typeName (withVoid : Bool)
  | routine | parameters | moreParameters
  | block | statements | statement
  | letStatement | doStatement | ifStatement | whileStatement | returnStatement
  | expression | operators (left : Expr) | unary | subscripted | primary
  | memberCall (receiver : Receiver) | arguments | moreArguments
  deriving Repr

/-- What a function gives back. -/
abbrev Call.Result : Call → Type
  | .file | .classTree => ClassTree
  | .members => List Member
  | .member => Member
  | .declaration _ => Declaration
  | .moreNames => List String
  | .typeName _ => JackType
  | .routine => Routine
  | .parameters | .moreParameters => List Parameter
  | .block | .statements => List Stmt
  | .statement | .letStatement | .doStatement | .ifStatement | .whileStatement
  | .returnStatement => Stmt
  | .expression | .operators _ | .unary | .subscripted | .primary | .memberCall _ => Expr
  | .arguments | .moreArguments => List Expr

/-- What a function does: it ends, or it asks for something and goes on with the answer. -/
inductive Script (α : Type) where
  | done (value : α)
  | fail (error : CompileError)
  | look (next : Option Token → Script α)
  | take (next : Token → Script α)
  | last (next : Position → Script α)
  | call (c : Call) (next : c.Result → Script α)

namespace Script

/-- One script behind the other. -/
def bind {α β : Type} : Script α → (α → Script β) → Script β
  | done a, f => f a
  | fail e, _ => fail e
  | look next, f => look fun t => (next t).bind f
  | take next, f => take fun t => (next t).bind f
  | last next, f => last fun p => (next p).bind f
  | call c next, f => call c fun a => (next a).bind f

instance : Monad Script where
  pure := done
  bind := bind

/-- Looks at the next token; none at the end of the text. -/
def peek : Script (Option Token) := look done

/-- Takes the next token. -/
def consume : Script Token := take done

/-- Calls a function. -/
def enter (c : Call) : Script c.Result := call c done

/-- The kind of the next token. -/
def kindAhead : Script (Option TokenKind) := return (← peek).map (·.kind)

/-- Whether the next token is of a kind. -/
def sees (kind : TokenKind) : Script Bool := return (← kindAhead) = some kind

/-- Fails about the next token. -/
def unexpected {α : Type} (expected : String) : Script α := do
  let place ← last done
  match ← peek with
  | some t => fail (.unexpectedToken expected t.describe (some t.position))
  | none => fail (.unexpectedEnd expected (some place))

/-- Takes the next token, which has to be of a kind. -/
def expect (kind : TokenKind) : Script Token := do
  if ← sees kind then consume else unexpected kind.describe

/-- Takes the symbol that has to be next. -/
def mark (s : Symbol) : Script Unit := do
  let _ ← expect (.symbol s)

end Script

open Script in
/-- The functions. -/
def Call.script : (c : Call) → Script c.Result
  | .file => do
    let tree ← enter .classTree
    match ← peek with
    | none => return tree
    | some t => fail (.trailingToken t.describe (some t.position))
  | .classTree => do
    let word ← expect (.keyword .class_)
    let name ← expect .identifier
    mark .openBrace
    let members ← enter .members
    mark .closeBrace
    return ⟨name.value, members, some word.position⟩
  | .members => do
    if ← sees (.symbol .closeBrace) then return []
    else if (← peek).isNone then unexpected (TokenKind.symbol .closeBrace).describe
    else
      let first ← enter .member
      let others ← enter .members
      return first :: others
  | .member => do
    match ← kindAhead with
    | some (.keyword .static) => return .shared (← enter (.declaration .static))
    | some (.keyword .field) => return .perObject (← enter (.declaration .field))
    | some (.keyword .function) | some (.keyword .method) | some (.keyword .constructor) =>
      return .routine (← enter .routine)
    | _ => unexpected "class member"
  | .declaration word => do
    let opening ← expect (.keyword word)
    let type ← enter (.typeName false)
    let name ← expect .identifier
    let others ← enter .moreNames
    mark .semicolon
    return ⟨type, name.value :: others, some opening.position⟩
  | .moreNames => do
    if ← sees (.symbol .comma) then
      let _ ← consume
      let name ← expect .identifier
      let others ← enter .moreNames
      return name.value :: others
    else return []
  | .typeName withVoid => do
    match (← peek).bind (·.type? withVoid) with
    | some type =>
      let _ ← consume
      return type
    | none => unexpected "type"
  | .routine => do
    let word ← consume
    match word.routine? with
    | none => fail (.unexpectedToken "subroutine" word.describe (some word.position))
    | some kind =>
      let type ← enter (.typeName (kind ≠ .constructor))
      let name ← expect .identifier
      mark .openParen
      let parameters ← enter .parameters
      mark .closeParen
      let body ← enter .block
      return ⟨kind, type, name.value, parameters, body, some word.position⟩
  | .parameters => do
    if ← sees (.symbol .closeParen) then return [] else enter .moreParameters
  | .moreParameters => do
    let type ← enter (.typeName false)
    let name ← expect .identifier
    let parameter : Parameter := ⟨type, name.value, some name.position⟩
    if ← sees (.symbol .comma) then
      let _ ← consume
      let others ← enter .moreParameters
      return parameter :: others
    else return [parameter]
  | .block => do
    mark .openBrace
    let body ← enter .statements
    mark .closeBrace
    return body
  | .statements => do
    if ← sees (.symbol .closeBrace) then return []
    else if (← peek).isNone then unexpected (TokenKind.symbol .closeBrace).describe
    else
      let first ← enter .statement
      let others ← enter .statements
      return first :: others
  | .statement => do
    match ← kindAhead with
    | some (.keyword .var) => return .declare (← enter (.declaration .var))
    | some (.keyword .let_) => enter .letStatement
    | some (.keyword .do_) => enter .doStatement
    | some (.keyword .if_) => enter .ifStatement
    | some (.keyword .while_) => enter .whileStatement
    | some (.keyword .return_) => enter .returnStatement
    | _ => unexpected "statement"
  | .letStatement => do
    let word ← expect (.keyword .let_)
    let name ← expect .identifier
    if ← sees (.symbol .openBracket) then
      let _ ← consume
      let subscript ← enter .expression
      mark .closeBracket
      mark .equal
      let value ← enter .expression
      mark .semicolon
      return .assignment word.position name.value (some subscript) value
    else
      mark .equal
      let value ← enter .expression
      mark .semicolon
      return .assignment word.position name.value none value
  | .doStatement => do
    let word ← expect (.keyword .do_)
    let call ← enter .expression
    mark .semicolon
    return .perform call (some word.position)
  | .ifStatement => do
    let _ ← expect (.keyword .if_)
    mark .openParen
    let condition ← enter .expression
    mark .closeParen
    let body ← enter .block
    if ← sees (.keyword .else_) then
      let _ ← consume
      let alternative ← enter .block
      return .ifElse condition body alternative
    else return .ifThen condition body
  | .whileStatement => do
    let _ ← expect (.keyword .while_)
    mark .openParen
    let condition ← enter .expression
    mark .closeParen
    let body ← enter .block
    return .repeatWhile condition body
  | .returnStatement => do
    let word ← expect (.keyword .return_)
    if ← sees (.symbol .semicolon) then
      mark .semicolon
      return .giveBack none (some word.position)
    else
      let value ← enter .expression
      mark .semicolon
      return .giveBack (some value) (some word.position)
  | .expression => do
    let left ← enter .unary
    enter (.operators left)
  | .operators left => do
    match ← peek with
    | some ⟨.symbol s, _, span⟩ =>
      match s.binaryOp? with
      | some op =>
        let _ ← consume
        let right ← enter .unary
        enter (.operators (.binary op left right (some span.first)))
      | none => return left
    | _ => return left
  | .unary => do
    match ← kindAhead with
    | some (.symbol .minus) =>
      let _ ← consume
      return .unary .negate (← enter .unary)
    | some (.symbol .tilde) =>
      let _ ← consume
      return .unary .not (← enter .unary)
    | _ => enter .subscripted
  | .subscripted => do
    let target ← enter .primary
    if ← sees (.symbol .openBracket) then
      let _ ← consume
      let subscript ← enter .expression
      mark .closeBracket
      return .index target subscript
    else return target
  | .primary => do
    match ← kindAhead with
    | some .integerConstant =>
      let t ← consume
      match t.constant? with
      | some n => return .constant n (some t.position)
      | none => fail (.unexpectedToken s!"integer constant in 0..={largestConstant}" t.value
          (some t.position))
    | some .stringConstant =>
      let t ← consume
      if t.value.utf8ByteSize ≤ largestConstant then return .string t.value
      else fail (.unexpectedToken s!"string constant of at most {largestConstant} bytes"
        s!"string constant of {t.value.utf8ByteSize} bytes" (some t.position))
    | some (.keyword .true_) =>
      let _ ← consume
      return .boolean true
    | some (.keyword .false_) =>
      let _ ← consume
      return .boolean false
    | some (.keyword .null) =>
      let _ ← consume
      return .null
    | some (.keyword .this) =>
      let t ← consume
      if ← sees (.symbol .dot) then enter (.memberCall (.this t.position))
      else return .this (some t.position)
    | some (.symbol .openParen) =>
      let _ ← consume
      let inner ← enter .expression
      mark .closeParen
      return inner
    | some .identifier =>
      let t ← expect .identifier
      if ← sees (.symbol .dot) then enter (.memberCall (.named t.value t.position))
      else if ← sees (.symbol .openParen) then
        return .call t.value (← enter .arguments) (some t.position)
      else return .reference t.value (some t.position)
    | _ => unexpected "expression"
  | .memberCall receiver => do
    mark .dot
    let name ← expect .identifier
    let arguments ← enter .arguments
    return .methodCall receiver.expr name.value arguments (some receiver.place)
  | .arguments => do
    mark .openParen
    if ← sees (.symbol .closeParen) then
      mark .closeParen
      return []
    else
      let arguments ← enter .moreArguments
      mark .closeParen
      return arguments
  | .moreArguments => do
    let first ← enter .expression
    if ← sees (.symbol .comma) then
      let _ ← consume
      let others ← enter .moreArguments
      return first :: others
    else return [first]

/-! ### Running -/

/-- What a descent reads from, and the tokens it has taken so far. -/
structure Parser where
  buffer : TokenBuffer
  taken : List Token

namespace Parser

/-- Nothing read yet. -/
def ofSource (source : String) : Parser := ⟨TokenBuffer.ofSource source, []⟩

/-- Looks at the next token. -/
def look (p : Parser) : Except CompileError (Option Token) × Parser :=
  (p.buffer.lookahead.1, { p with buffer := p.buffer.lookahead.2 })

/-- Takes the next token, and keeps account of it. -/
def take (p : Parser) : Except CompileError Token × Parser :=
  match p.buffer.consume with
  | (.ok t, b) => (.ok t, ⟨b, p.taken ++ [t]⟩)
  | (.error e, b) => (.error e, { p with buffer := b })

end Parser

/-- How a call ends: with what it gives back or with an error, and with the parser afterwards. -/
abbrev Ending (α : Type) : Type := Except CompileError α × Parser

/-- Runs a script, if the functions it calls come to an end. -/
def Script.run {α : Type} (calls : (c : Call) → Parser → Option (Ending c.Result)) :
    Script α → Parser → Option (Ending α)
  | done a, p => some (.ok a, p)
  | fail e, p => some (.error e, p)
  | look next, p =>
    match p.look with
    | (.ok t, p) => (next t).run calls p
    | (.error e, p) => some (.error e, p)
  | take next, p =>
    match p.take with
    | (.ok t, p) => (next t).run calls p
    | (.error e, p) => some (.error e, p)
  | last next, p => (next p.buffer.last).run calls p
  | call c next, p =>
    match calls c p with
    | none => none
    | some (.ok a, p) => (next a).run calls p
    | some (.error e, p) => some (.error e, p)

/-- Calls a function where so many calls may be open at a time, this one included. -/
def Call.run : Nat → (c : Call) → Parser → Option (Ending c.Result)
  | 0, _, _ => none
  | depth + 1, c, p => c.script.run (Call.run depth) p

end JackCompiler.Descent
